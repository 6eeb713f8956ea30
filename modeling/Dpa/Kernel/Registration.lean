import Dpa.Kernel.InterfaceSpec

namespace Dpa.Kernel

open Function Library MachineWord PoolMemory

/-- An interface with the file descriptors that are registered to it: its adapter, its enable flag
and the `dif` of every `struct dpa_priv`. -/
structure Registry where
  dadp : DpaAdapter
  enabled : Bool
  difs : List DpaIf

def DpaAdapter.dropRef (dadp : DpaAdapter) : DpaAdapter := { dadp with refs := dadp.refs - 1 }

/-- What `dpa_reg_if` comes to under `reg_lock`. -/
inductive RegPoint
  | full
  | noObjects
  /-- the interface is enabled already -/
  | joins (dif : DpaIf)
  /-- the driver's callback is to enable it -/
  | enables (dif : DpaIf)

def RegPoint.of (enabled : Bool) : Option DpaIf → RegPoint
  | none => .noObjects
  | some dif => if enabled then .joins dif else .enables dif

section

variable (pools : PoolId → DpaObjPool) (bufSize : ℕ)

/-- `dpa_destructor_locked` from its sleep on, less the driver's callback. -/
def destroyLast (dadp : DpaAdapter) (va : ℕ) : PoolProgram Unit := do
  freeAll pools dadp
  dpaIfFree pools va

/-- `dpa_destructor_locked`, less the sleep and the driver's callback. -/
def dpaDestructorLocked (dadp : DpaAdapter) (va : ℕ) : PoolProgram DpaAdapter := do
  let dadp := dadp.dropRef
  if dadp.refs ≤ 0 then do
    destroyLast pools dadp va
    pure dadp
  else do
    dpaIfFree pools va
    pure dadp

/-- `dpa_reg_if` under `reg_lock`, from its test of the references up to the driver's callback. -/
def regEnter (enabled : Bool) (dadp : DpaAdapter) : PoolProgram (RegPoint × DpaAdapter) :=
  if dadp.refs = dadp.numRxRings then pure (.full, dadp)
  else do
    let (dif, dadp) ← dpaNewIf pools bufSize dadp
    pure (.of enabled dif, dadp)

/-- `dpa_reg_if` for a file descriptor that is not registered; `regOk` is whether the driver's
callback succeeds, if it is called. -/
def dpaRegIf (regOk : Bool) (r : Registry) : PoolProgram Registry := do
  let (point, dadp) ← regEnter pools bufSize r.enabled r.dadp
  match point with
  | .full | .noObjects => pure { r with dadp := dadp }
  | .joins dif => pure { r with dadp := dadp, difs := r.difs ++ [dif] }
  | .enables dif =>
    if regOk then pure { dadp := dadp, enabled := true, difs := r.difs ++ [dif] }
    else do
      let dadp ← dpaDestructorLocked pools dadp dif.va
      pure { r with dadp := dadp, enabled := false }

/-- `dpa_destructor` for file descriptor `k` of the interface. -/
def dpaDestructor (k : ℕ) (r : Registry) : PoolProgram Registry :=
  match r.difs[k]? with
  | none => pure r
  | some dif => do
    let dadp ← dpaDestructorLocked pools r.dadp dif.va
    pure
      { dadp := dadp
        enabled := if dadp.refs ≤ 0 then false else r.enabled
        difs := r.difs.eraseIdx k }

end

/-- The objects of an interface: the interface objects of its descriptors, and what its rings hold
while there are any. -/
def holding (pools : PoolId → DpaObjPool) (r : Registry) (p : PoolId) : List ℕ :=
  (r.difs.flatMap fun d ↦ only .ifPool (vaIndex (pools .ifPool) d.va).toList p) ++
    if r.difs = [] then [] else ringGrants pools r.dadp.rxRings (List.range r.dadp.numRxRings) p

/-- An interface between two calls. -/
structure Registry.Ready (pools : PoolId → DpaObjPool) (bufSize : ℕ) (r : Registry) : Prop where
  refs : r.dadp.refs = r.difs.length
  enabled : r.enabled = true ↔ r.difs ≠ []
  pointer : ∀ j < r.dadp.numRxRings, Pointer pools (r.dadp.rxRings j)
  filled : r.difs ≠ [] → ∀ j < r.dadp.numRxRings,
    Filled pools bufSize r.dadp.numRxDescs (r.dadp.rxRings j)
  difs : ∀ d ∈ r.difs, ∃ x, IsObject (pools .ifPool) d.va x

def Counted (pools : PoolId → DpaObjPool) (s : PoolMemory) (ndesc m : ℕ) : Prop :=
  m = 0 ∨ ringLen ndesc ≤ (pools .ringPool).objSize ∧ m ≤ (s.words .ringPool).objFree ∧
    m * ndesc ≤ (s.words .bufPool).objFree

/-- A `dpa_new_if` that takes an interface object and looks for rings reaches every ring whose
pointer is not null. -/
def NoneLeftOver (pools : PoolId → DpaObjPool) (s : PoolMemory) (dadp : DpaAdapter) : Prop :=
  ¬0 < dadp.refs → 0 < (s.words .ifPool).objFree →
    ifLen dadp.numRxRings ≤ (pools .ifPool).objSize →
    ∀ j < dadp.numRxRings, (dadp.rxRings j).ringVa ≠ 0 → Counted pools s dadp.numRxDescs j

section

variable {pools : PoolId → DpaObjPool} {bufSize : ℕ} (hp : SoundPools pools bufSize)
  {s : PoolMemory} {F : PoolId → Finset ℕ} {dadp : DpaAdapter} {m n g ndesc : ℕ}

theorem counted_iff (h : Represented pools s F) :
    Counted pools s ndesc m ↔ Enough pools F ndesc m := by
  rw [Counted, Enough, (h .ringPool).count, (h .bufPool).count]

theorem Enough.mono (h : Enough pools F ndesc m) (hn : n ≤ m) : Enough pools F ndesc n := by
  rcases h with rfl | ⟨hlen, hr, hb⟩
  · exact .inl (Nat.le_zero.1 hn)
  · exact .inr ⟨hlen, hn.trans hr, (Nat.mul_le_mul_right _ hn).trans hb⟩

/-- Up to the ring it fails at there are objects, and from there on there are not. -/
theorem Enough.le_iff (hg : Enough pools F ndesc g) (hnot : ¬Enough pools F ndesc (g + 1)) :
    Enough pools F ndesc m ↔ m ≤ g :=
  ⟨fun h ↦ not_lt.1 fun hlt ↦ hnot (h.mono hlt), fun h ↦ hg.mono h⟩

theorem words_putAll_only {p : PoolId} {l : List ℕ} :
    (∀ q, (s.putAll (only p l)).words q = s.words q) ↔ l = [] := by
  constructor
  · intro h
    have hfree := congrArg PoolWords.objFree (h p)
    change ((s.words p).putAll (only p l p)).objFree = _ at hfree
    rw [PoolWords.objFree_putAll, only_self] at hfree
    exact List.length_eq_zero_iff.1 (by omega)
  · rintro rfl q
    rw [only_nil, putAll_nil]

include hp in
theorem ringObj_eq_nil {rx : RxRing} (h : Pointer pools rx) :
    ringObj pools rx = [] ↔ rx.ringVa = 0 := by
  refine ⟨fun hnil ↦ ?_, fun hnull ↦ if_pos hnull⟩
  rcases h with hnull | ⟨x, hx⟩
  · exact hnull
  · rw [ringObj_eq hp hx] at hnil
    cases hnil

include hp in
/-- A failed `dpa_new_if` leaves the pools as they were if, and only if, every ring whose pointer
is not null has been reached. -/
theorem dpaNewIf_none (h : Represented pools s F) (hlock : s.locked = false)
    (hptr : ∀ j < dadp.numRxRings, Pointer pools (dadp.rxRings j)) {dadp' : DpaAdapter}
    {s' : PoolMemory}
    (hrun : (dpaNewIf pools bufSize dadp).run (access pools) s = some ((none, dadp'), s')) :
    dadp'.refs = dadp.refs ∧ dadp'.numRxRings = dadp.numRxRings ∧
      dadp'.numRxDescs = dadp.numRxDescs ∧
      (∀ j < dadp'.numRxRings, Pointer pools (dadp'.rxRings j)) ∧
      (0 < dadp.refs → dadp' = dadp) ∧ (s' = s ↔ NoneLeftOver pools s dadp) ∧
      ((∀ p, s'.words p = s.words p) ↔ NoneLeftOver pools s dadp) := by
  have hcount := (h .ifPool).count
  by_cases hif : (F .ifPool).Nonempty ∧ ifLen dadp.numRxRings ≤ (pools .ifPool).objSize
  · by_cases hrefs : 0 < dadp.refs
    · obtain ⟨x, -, hagain⟩ := run_dpaNewIf_again hp h hlock hif.1 hif.2 hrefs
      rw [hrun] at hagain
      cases hagain
    · by_cases hen : Enough pools F dadp.numRxDescs dadp.numRxRings
      · obtain ⟨x, rx', hfirst, -⟩ := run_dpaNewIf_first hp h hlock hif.1 hif.2 hrefs hen
        rw [hrun] at hfirst
        cases hfirst
      · obtain ⟨g, hg, heng, hnot, rx', hfail, hptr'⟩ :=
          run_dpaNewIf_fail hp h hlock hif.1 hif.2 hrefs hen hptr
        rw [hrun] at hfail
        cases hfail
        have hclean : (List.range' (g + 1) (dadp.numRxRings - (g + 1))).flatMap
            (fun j ↦ ringObj pools (dadp.rxRings j)) = [] ↔ NoneLeftOver pools s dadp := by
          rw [List.flatMap_eq_nil_iff]
          constructor
          · intro hnil _ _ _ j hj hne
            rw [counted_iff h, heng.le_iff hnot]
            by_contra hlt
            exact hne ((ringObj_eq_nil hp (hptr j hj)).1
              (hnil j (List.mem_range'_1.2 ⟨by omega, by omega⟩)))
          · intro hnone j hj
            have hjr := List.mem_range'_1.1 hj
            refine (ringObj_eq_nil hp (hptr j (by omega))).2 ?_
            by_contra hne
            have hcounted := hnone hrefs (by rw [hcount]; exact Finset.card_pos.2 hif.1) hif.2 j
              (by omega) hne
            rw [counted_iff h, heng.le_iff hnot] at hcounted
            omega
        refine ⟨rfl, rfl, rfl, hptr', fun hpos ↦ absurd hpos hrefs, ?_, words_putAll_only.trans hclean⟩
        rw [← hclean]
        refine ⟨fun heq ↦ words_putAll_only.1 fun q ↦ by rw [heq], fun hnil ↦ ?_⟩
        rw [hnil, only_nil, putAll_nil]
  · have hfail : F .ifPool = ∅ ∨ (pools .ifPool).objSize < ifLen dadp.numRxRings := by
      rw [← Finset.not_nonempty_iff_eq_empty, ← not_le]
      exact not_and_or.1 hif
    rw [run_dpaNewIf_noIf h hlock hfail] at hrun
    cases hrun
    have hnone : NoneLeftOver pools s dadp := by
      intro _ hpos hlen
      refine absurd ⟨?_, hlen⟩ hif
      rwa [hcount, Finset.card_pos] at hpos
    exact ⟨rfl, rfl, rfl, hptr, fun _ ↦ rfl, iff_of_true rfl hnone, iff_of_true (fun _ ↦ rfl) hnone⟩

include hp in
theorem run_dpaNewIf (h : Represented pools s F) (hlock : s.locked = false)
    (hptr : ∀ j < dadp.numRxRings, Pointer pools (dadp.rxRings j)) :
    (∃ dadp' s', (dpaNewIf pools bufSize dadp).run (access pools) s = some ((none, dadp'), s')) ∨
    (0 < dadp.refs ∧ ∃ x ∈ F .ifPool, (dpaNewIf pools bufSize dadp).run (access pools) s =
      some ((some (newIf pools ((pools .ifPool).addrTbl x).vaddr { dadp with refs := dadp.refs + 1 }),
        { dadp with refs := dadp.refs + 1 }), s.takeAll (only .ifPool [x]))) ∨
    (¬0 < dadp.refs ∧ ∃ x rx', (dpaNewIf pools bufSize dadp).run (access pools) s =
        some ((some (newIf pools ((pools .ifPool).addrTbl x).vaddr
            { dadp with refs := dadp.refs + 1, rxRings := rx' }),
          { dadp with refs := dadp.refs + 1, rxRings := rx' }),
          s.takeAll fun p ↦ only .ifPool [x] p ++
            ringGrants pools rx' (List.range dadp.numRxRings) p) ∧
      (FreeObjs F fun p ↦ only .ifPool [x] p ++
        ringGrants pools rx' (List.range dadp.numRxRings) p) ∧
      ∀ j < dadp.numRxRings, Filled pools bufSize dadp.numRxDescs (rx' j)) := by
  by_cases hif : (F .ifPool).Nonempty ∧ ifLen dadp.numRxRings ≤ (pools .ifPool).objSize
  · by_cases hrefs : 0 < dadp.refs
    · obtain ⟨x, hx, hagain⟩ := run_dpaNewIf_again hp h hlock hif.1 hif.2 hrefs
      exact .inr (.inl ⟨hrefs, x, hx, hagain⟩)
    · by_cases hen : Enough pools F dadp.numRxDescs dadp.numRxRings
      · obtain ⟨x, rx', hfirst, hfree, hfilled, -⟩ :=
          run_dpaNewIf_first hp h hlock hif.1 hif.2 hrefs hen
        exact .inr (.inr ⟨hrefs, x, rx', hfirst, hfree, hfilled⟩)
      · obtain ⟨g, -, -, -, rx', hfail, -⟩ :=
          run_dpaNewIf_fail hp h hlock hif.1 hif.2 hrefs hen hptr
        exact .inl ⟨_, _, hfail⟩
  · have hfail : F .ifPool = ∅ ∨ (pools .ifPool).objSize < ifLen dadp.numRxRings := by
      rw [← Finset.not_nonempty_iff_eq_empty, ← not_le]
      exact not_and_or.1 hif
    exact .inl ⟨_, _, run_dpaNewIf_noIf h hlock hfail⟩

include hp in
theorem noneLeftOver_of_some (h : Represented pools s F) (hlock : s.locked = false)
    (hptr : ∀ j < dadp.numRxRings, Pointer pools (dadp.rxRings j)) {dif : DpaIf} {dadp' : DpaAdapter}
    {s' : PoolMemory} (hrun : (dpaNewIf pools bufSize dadp).run (access pools) s =
      some ((some dif, dadp'), s')) : NoneLeftOver pools s dadp := by
  intro hrefs hif hlen j hj _
  rw [(h .ifPool).count, Finset.card_pos] at hif
  rw [counted_iff h]
  by_cases hen : Enough pools F dadp.numRxDescs dadp.numRxRings
  · exact hen.mono hj.le
  · obtain ⟨g, -, -, -, rx', hfail, -⟩ := run_dpaNewIf_fail hp h hlock hif hlen hrefs hen hptr
    rw [hrun] at hfail
    cases hfail

include hp in
theorem run_dpaNewIf_some (h : Represented pools s F) (hlock : s.locked = false)
    (hif : 0 < (s.words .ifPool).objFree) (hlen : ifLen dadp.numRxRings ≤ (pools .ifPool).objSize)
    (hcount : ¬0 < dadp.refs → Counted pools s dadp.numRxDescs dadp.numRxRings) :
    ∃ dif dadp' s', (dpaNewIf pools bufSize dadp).run (access pools) s =
      some ((some dif, dadp'), s') := by
  rw [(h .ifPool).count, Finset.card_pos] at hif
  rw [counted_iff h] at hcount
  by_cases hrefs : 0 < dadp.refs
  · obtain ⟨x, -, hagain⟩ := run_dpaNewIf_again hp h hlock hif hlen hrefs
    exact ⟨_, _, _, hagain⟩
  · obtain ⟨x, rx', hfirst, -⟩ := run_dpaNewIf_first hp h hlock hif hlen hrefs (hcount hrefs)
    exact ⟨_, _, _, hfirst⟩

theorem Filled.pointer {rx : RxRing} (h : Filled pools bufSize ndesc rx) : Pointer pools rx := by
  obtain ⟨x, slot, hx, -⟩ := h
  exact .inr ⟨x, hx⟩

def returned (pools : PoolId → DpaObjPool) (dadp : DpaAdapter) (x : ℕ) (p : PoolId) : List ℕ :=
  (only .bufPool ((List.range dadp.numRxRings).flatMap fun i ↦
      validBufs (pools .bufPool) (slotIdxs (dadp.rxRings i))) p ++
    only .ringPool ((List.range dadp.numRxRings).flatMap fun j ↦
      ringObj pools (dadp.rxRings j)) p) ++ only .ifPool [x] p

include hp in
theorem run_destroyLast (dadp : DpaAdapter) (hlock : s.locked = false)
    (hptr : ∀ j < dadp.numRxRings, Pointer pools (dadp.rxRings j)) {va x : ℕ}
    (hx : IsObject (pools .ifPool) va x) :
    (destroyLast pools dadp va).run (access pools) s =
      some ((), s.putAll (returned pools dadp x)) := by
  rw [destroyLast, Program.run_bind_of (run_freeAll hp hlock dadp hptr), run_dpaIfFree hp hx,
    putAll_putAll]
  rfl

include hp in
theorem run_destructor_last (dadp : DpaAdapter) (hlock : s.locked = false)
    (hptr : ∀ j < dadp.numRxRings, Pointer pools (dadp.rxRings j)) (hrefs : dadp.refs ≤ 1) {va x : ℕ}
    (hx : IsObject (pools .ifPool) va x) :
    (dpaDestructorLocked pools dadp va).run (access pools) s =
      some ({ dadp with refs := dadp.refs - 1 }, s.putAll (returned pools dadp x)) := by
  have hle : dadp.refs - 1 ≤ 0 := by omega
  have hlast := run_destroyLast hp { dadp with refs := dadp.refs - 1 } hlock hptr hx
  rw [dpaDestructorLocked, DpaAdapter.dropRef, if_pos hle, Program.run_bind_of hlast]
  rfl

include hp in
theorem run_destructor_more (hrefs : 1 < dadp.refs) {va x : ℕ} (hx : IsObject (pools .ifPool) va x) :
    (dpaDestructorLocked pools dadp va).run (access pools) s =
      some ({ dadp with refs := dadp.refs - 1 }, s.putAll (only .ifPool [x])) := by
  have hle : ¬dadp.refs - 1 ≤ 0 := by omega
  rw [dpaDestructorLocked, DpaAdapter.dropRef, if_neg hle,
    Program.run_bind_of (run_dpaIfFree hp hx _)]
  rfl

/-- Where the slots still name free objects of the pool, the last destructor returns just them. -/
theorem returned_perm {m : PoolMemory} (h : Represented pools m F) {x : ℕ}
    (hfree : FreeObjs F (ringGrants pools dadp.rxRings (List.range dadp.numRxRings))) (p : PoolId) :
    (returned pools dadp x p).Perm
      (only .ifPool [x] p ++ ringGrants pools dadp.rxRings (List.range dadp.numRxRings) p) := by
  cases p with
  | ifPool => simp [returned, only_of_ne]
  | ringPool => simp [returned, only_of_ne]
  | bufPool =>
    have hvalid : ((List.range dadp.numRxRings).flatMap fun i ↦
        validBufs (pools .bufPool) (slotIdxs (dadp.rxRings i))) =
        (List.range dadp.numRxRings).flatMap fun i ↦ slotIdxs (dadp.rxRings i) :=
      List.flatMap_congr fun i hi ↦ validBufs_eq h fun y hy ↦
        (hfree .bufPool).2 y (List.mem_flatMap.2 ⟨i, hi, hy⟩)
    simp [returned, only_of_ne, hvalid]

theorem FreeObjs.right {A B : PoolId → List ℕ} (h : FreeObjs F fun p ↦ A p ++ B p) : FreeObjs F B :=
  fun p ↦ ⟨(List.nodup_append.1 (h p).1).2.1, fun x hx ↦ (h p).2 x (List.mem_append_right _ hx)⟩

theorem FreeObjs.of_sdiff {A B : PoolId → List ℕ}
    (h : FreeObjs (fun p ↦ F p \ (A p).toFinset) B) : FreeObjs F B :=
  fun p ↦ ⟨(h p).1, fun x hx ↦ (Finset.mem_sdiff.1 ((h p).2 x hx)).1⟩

end

section

variable {pools : PoolId → DpaObjPool} {bufSize : ℕ} (hp : SoundPools pools bufSize)
  {m s : PoolMemory} {F : PoolId → Finset ℕ} {r : Registry} {R : PoolId → List ℕ} {k : ℕ}

def Leaves (pools : PoolId → DpaObjPool) (bufSize : ℕ) (m : PoolMemory) (F : PoolId → Finset ℕ)
    (R : PoolId → List ℕ) (r r' : Registry) (s' : PoolMemory) : Prop :=
  r'.Ready pools bufSize ∧ r'.dadp.numRxRings = r.dadp.numRxRings ∧
    r'.dadp.numRxDescs = r.dadp.numRxDescs ∧
    (Owned m F s' fun p ↦ holding pools r' p ++ R p) ∧ s'.locked = false

theorem perm_append_swap (xs ys zs : List ℕ) : (xs ++ ys ++ zs).Perm (xs ++ zs ++ ys) := by
  rw [List.append_assoc, List.append_assoc]
  exact List.perm_append_comm.append_left xs

theorem holding_nil (h : r.difs = []) (p : PoolId) : holding pools r p = [] := by
  rw [holding, h, if_pos rfl]
  rfl

theorem holding_cons (h : r.difs ≠ []) (p : PoolId) :
    holding pools r p =
      (r.difs.flatMap fun d ↦ only .ifPool (vaIndex (pools .ifPool) d.va).toList p) ++
        ringGrants pools r.dadp.rxRings (List.range r.dadp.numRxRings) p := by
  rw [holding, if_neg h]

theorem Registry.Ready.refs_pos (hr : r.Ready pools bufSize) : 0 < r.dadp.refs ↔ r.difs ≠ [] := by
  rw [hr.refs, ← List.length_pos_iff]
  omega

include hp in
theorem vaIndex_toList {va x : ℕ}
    (hx : IsObject (pools .ifPool) va x) : (vaIndex (pools .ifPool) va).toList = [x] := by
  rw [hx.2.2, vaIndex_vaddr (hp.sound .ifPool) hp.ifMapped hx.2.1, Option.toList_some]

section

variable {dadp : DpaAdapter} {dif : DpaIf} {rx : ℕ → RxRing} {x : ℕ}

theorem Registry.Ready.failed (hr : r.Ready pools bufSize) (hrefs : dadp.refs = r.dadp.refs)
    (hptr : ∀ j < dadp.numRxRings, Pointer pools (dadp.rxRings j))
    (hkeep : 0 < r.dadp.refs → dadp = r.dadp) :
    Registry.Ready pools bufSize { r with dadp := dadp } ∧
      ∀ p, holding pools { r with dadp := dadp } p = holding pools r p := by
  by_cases hdifs : r.difs = []
  · refine ⟨⟨hrefs.trans hr.refs, hr.enabled, hptr, fun h ↦ absurd hdifs h, hr.difs⟩, fun p ↦ ?_⟩
    rw [holding_nil hdifs, holding_nil (r := { r with dadp := dadp }) hdifs]
  · obtain rfl := hkeep (hr.refs_pos.2 hdifs)
    exact ⟨hr, fun _ ↦ rfl⟩

include hp in
theorem Registry.Ready.again (hr : r.Ready pools bufSize) (hrefs : 0 < r.dadp.refs)
    (hdif : IsObject (pools .ifPool) dif.va x) :
    Registry.Ready pools bufSize
        ⟨{ r.dadp with refs := r.dadp.refs + 1 }, r.enabled, r.difs ++ [dif]⟩ ∧
      ∀ p, (holding pools r p ++ only .ifPool [x] p).Perm (holding pools
        ⟨{ r.dadp with refs := r.dadp.refs + 1 }, r.enabled, r.difs ++ [dif]⟩ p) := by
  have hdifs := hr.refs_pos.1 hrefs
  refine ⟨⟨?_, ?_, hr.pointer, fun _ ↦ hr.filled hdifs, ?_⟩, fun p ↦ ?_⟩
  · simp [hr.refs]
  · simp [hr.enabled.2 hdifs]
  · intro d hd
    rcases List.mem_append.1 hd with hd | hd
    · exact hr.difs d hd
    · obtain rfl := List.mem_singleton.1 hd
      exact ⟨x, hdif⟩
  · rw [holding_cons hdifs, holding_cons (by simp), List.flatMap_append, List.flatMap_singleton,
      vaIndex_toList hp hdif]
    simp only [List.append_assoc]
    refine List.Perm.append_left _ ?_
    exact List.perm_append_comm

include hp in
theorem Registry.Ready.first (hr : r.Ready pools bufSize) (hdifs : r.difs = [])
    (hdif : IsObject (pools .ifPool) dif.va x)
    (hfilled : ∀ j < r.dadp.numRxRings, Filled pools bufSize r.dadp.numRxDescs (rx j)) :
    Registry.Ready pools bufSize
        ⟨{ r.dadp with refs := r.dadp.refs + 1, rxRings := rx }, true, r.difs ++ [dif]⟩ ∧
      ∀ p, (holding pools r p ++
          (only .ifPool [x] p ++ ringGrants pools rx (List.range r.dadp.numRxRings) p)).Perm
        (holding pools
          ⟨{ r.dadp with refs := r.dadp.refs + 1, rxRings := rx }, true, r.difs ++ [dif]⟩ p) := by
  refine ⟨⟨?_, ?_, fun j hj ↦ (hfilled j hj).pointer, fun _ ↦ hfilled, ?_⟩, fun p ↦ ?_⟩
  · simp [hr.refs]
  · simp
  · intro d hd
    rw [hdifs, List.nil_append, List.mem_singleton] at hd
    rw [hd]
    exact ⟨x, hdif⟩
  · rw [holding_nil hdifs, holding_cons (by simp)]
    dsimp only
    rw [hdifs, List.nil_append, List.nil_append, List.flatMap_singleton, vaIndex_toList hp hdif]

theorem Registry.Ready.undone (hr : r.Ready pools bufSize) (hdifs : r.difs = [])
    (hptr : ∀ j < r.dadp.numRxRings, Pointer pools (rx j)) :
    Registry.Ready pools bufSize
      ⟨{ r.dadp with refs := r.dadp.refs + 1 - 1, rxRings := rx }, false, r.difs⟩ := by
  refine ⟨?_, ?_, hptr, fun h ↦ absurd hdifs h, hr.difs⟩
  · simp [hr.refs]
  · simp [hdifs]

theorem Registry.Ready.only_dif (hr : r.Ready pools bufSize) (hk : r.difs[k]? = some dif)
    (hlast : r.dadp.refs ≤ 1) : r.difs = [dif] ∧ r.difs.eraseIdx k = [] := by
  obtain ⟨hlt, heq⟩ := List.getElem?_eq_some_iff.1 hk
  have hperm : r.difs.Perm (dif :: r.difs.eraseIdx k) :=
    heq ▸ (List.getElem_cons_eraseIdx_perm hlt).symm
  have hnil : r.difs.eraseIdx k = [] := by
    have hrefs := hr.refs
    rw [← List.length_eq_zero_iff, List.length_eraseIdx_of_lt hlt]
    omega
  exact ⟨List.perm_singleton.1 (hnil ▸ hperm), hnil⟩

theorem Registry.Ready.last (hr : r.Ready pools bufSize) (hone : r.difs = [dif]) :
    Registry.Ready pools bufSize ⟨{ r.dadp with refs := r.dadp.refs - 1 }, false, []⟩ := by
  refine ⟨?_, ?_, hr.pointer, fun h ↦ absurd rfl h, fun d hd ↦ absurd hd List.not_mem_nil⟩
  · simp [hr.refs, hone]
  · simp

include hp in
theorem Registry.Ready.less (hr : r.Ready pools bufSize) (hk : r.difs[k]? = some dif)
    (hmore : 1 < r.dadp.refs) (hdif : IsObject (pools .ifPool) dif.va x) :
    Registry.Ready pools bufSize
        ⟨{ r.dadp with refs := r.dadp.refs - 1 }, r.enabled, r.difs.eraseIdx k⟩ ∧
      ∀ p, (holding pools r p).Perm (holding pools
        ⟨{ r.dadp with refs := r.dadp.refs - 1 }, r.enabled, r.difs.eraseIdx k⟩ p ++
          only .ifPool [x] p) := by
  obtain ⟨hlt, heq⟩ := List.getElem?_eq_some_iff.1 hk
  have hdifs : r.difs ≠ [] := List.ne_nil_of_length_pos (by omega)
  have hperm : r.difs.Perm (dif :: r.difs.eraseIdx k) :=
    heq ▸ (List.getElem_cons_eraseIdx_perm hlt).symm
  have hlen := hperm.length_eq
  have hrefs := hr.refs
  rw [List.length_cons] at hlen
  have hdifs' : r.difs.eraseIdx k ≠ [] := by
    rw [← List.length_pos_iff]
    omega
  refine ⟨⟨?_, ?_, hr.pointer, fun _ ↦ hr.filled hdifs, fun d hd ↦
    hr.difs d (List.mem_of_mem_eraseIdx hd)⟩, fun p ↦ ?_⟩
  · dsimp only
    omega
  · simp [hr.enabled.2 hdifs, hdifs']
  · rw [holding_cons hdifs, holding_cons hdifs']
    have hflat := hperm.flatMap_right fun d ↦
      only .ifPool (vaIndex (pools .ifPool) d.va).toList p
    rw [List.flatMap_cons, vaIndex_toList hp hdif] at hflat
    refine (hflat.append_right _).trans ?_
    rw [List.append_assoc]
    exact List.perm_append_comm

end

section

variable {dadp dadp' : DpaAdapter} {e : Bool} {point : RegPoint} {dif : Option DpaIf} {s' : PoolMemory}

theorem run_regEnter_full (hfull : dadp.refs = dadp.numRxRings) :
    (regEnter pools bufSize e dadp).run (access pools) s = some ((.full, dadp), s) := by
  rw [regEnter, if_pos hfull]
  rfl

theorem run_regEnter_open (hopen : dadp.refs ≠ dadp.numRxRings)
    (hnew : (dpaNewIf pools bufSize dadp).run (access pools) s = some ((dif, dadp'), s')) :
    (regEnter pools bufSize e dadp).run (access pools) s = some ((.of e dif, dadp'), s') := by
  rw [regEnter, if_neg hopen, Program.run_bind_of hnew]
  rfl

theorem regEnter_cases
    (hrun : (regEnter pools bufSize e dadp).run (access pools) s = some ((point, dadp'), s')) :
    (dadp.refs = dadp.numRxRings ∧ point = .full ∧ dadp' = dadp ∧ s' = s) ∨
      dadp.refs ≠ dadp.numRxRings ∧ ∃ dif, point = .of e dif ∧
        (dpaNewIf pools bufSize dadp).run (access pools) s = some ((dif, dadp'), s') := by
  by_cases hfull : dadp.refs = dadp.numRxRings
  · rw [run_regEnter_full hfull] at hrun
    cases hrun
    exact .inl ⟨hfull, rfl, rfl, rfl⟩
  · rw [regEnter, if_neg hfull, Program.run_bind] at hrun
    obtain ⟨⟨⟨dif, dadp₁⟩, s₁⟩, hnew, hret⟩ := Option.bind_eq_some_iff.1 hrun
    cases hret
    exact .inr ⟨hfull, dif, rfl, hnew⟩

theorem regEnter_yields {P : Option DpaIf × DpaAdapter → Prop}
    (h : (dpaNewIf pools bufSize dadp).Yields P) :
    (regEnter pools bufSize e dadp).Yields fun a ↦
      a = (.full, dadp) ∨ ∃ dif, a.1 = .of e dif ∧ P (dif, a.2) := by
  rw [regEnter]
  split_ifs with hfull
  · exact .inl rfl
  · exact h.bind fun a ha ↦ .inr ⟨a.1, rfl, ha⟩

end

theorem run_dpaRegIf_full (hfull : r.dadp.refs = r.dadp.numRxRings) (regOk : Bool) :
    (dpaRegIf pools bufSize regOk r).run (access pools) s = some (r, s) := by
  rw [dpaRegIf, Program.run_bind_of (run_regEnter_full hfull)]
  rfl

theorem run_dpaRegIf_some (hopen : r.dadp.refs ≠ r.dadp.numRxRings) {dif : DpaIf}
    {dadp : DpaAdapter} {s' : PoolMemory}
    (hnew : (dpaNewIf pools bufSize r.dadp).run (access pools) s = some ((some dif, dadp), s')) :
    (dpaRegIf pools bufSize true r).run (access pools) s =
      some (⟨dadp, true, r.difs ++ [dif]⟩, s') := by
  rw [dpaRegIf, Program.run_bind_of (run_regEnter_open hopen hnew)]
  cases r.enabled with
  | true => rfl
  | false => rfl

theorem run_dpaRegIf_difs {regOk : Bool} {r' : Registry} {s' : PoolMemory}
    (hrun : (dpaRegIf pools bufSize regOk r).run (access pools) s = some (r', s')) :
    r'.difs = r.difs ∨ r.dadp.refs ≠ r.dadp.numRxRings ∧ ∃ dif, r'.difs = r.difs ++ [dif] ∧
      ∃ dadp s₁, (dpaNewIf pools bufSize r.dadp).run (access pools) s =
        some ((some dif, dadp), s₁) := by
  rw [dpaRegIf, Program.run_bind] at hrun
  obtain ⟨⟨⟨point, dadp⟩, s₁⟩, henter, hrest⟩ := Option.bind_eq_some_iff.1 hrun
  clear hrun
  obtain ⟨-, rfl, -⟩ | ⟨hopen, dif, rfl, hnew⟩ := regEnter_cases henter
  · cases hrest
    exact .inl rfl
  cases dif with
  | none =>
    cases hrest
    exact .inl rfl
  | some dif =>
    cases he : r.enabled with
    | true =>
      rw [he] at hrest
      cases hrest
      exact .inr ⟨hopen, dif, rfl, dadp, _, hnew⟩
    | false =>
      rw [he] at hrest
      change Program.run _ (if regOk = true then _ else _) _ = _ at hrest
      split_ifs at hrest with hok
      · cases hrest
        exact .inr ⟨hopen, dif, rfl, dadp, _, hnew⟩
      · rw [Program.run_bind] at hrest
        obtain ⟨_, -, hrest⟩ := Option.bind_eq_some_iff.1 hrest
        cases hrest
        exact .inl rfl

theorem run_dpaDestructor_eq {r' : Registry} {s' : PoolMemory}
    (hrun : (dpaDestructor pools k r).run (access pools) s = some (r', s')) :
    r'.dadp.rxRings = r.dadp.rxRings ∧ r'.difs = r.difs.eraseIdx k := by
  rw [dpaDestructor] at hrun
  cases hk : r.difs[k]? with
  | none =>
    rw [hk] at hrun
    cases hrun
    exact ⟨rfl, (List.eraseIdx_of_length_le (List.getElem?_eq_none_iff.1 hk)).symm⟩
  | some dif =>
    rw [hk] at hrun
    dsimp only at hrun
    rw [Program.run_bind] at hrun
    obtain ⟨⟨dadp, s₁⟩, hlocked, hrest⟩ := Option.bind_eq_some_iff.1 hrun
    cases hrest
    refine ⟨?_, rfl⟩
    rw [dpaDestructorLocked] at hlocked
    split_ifs at hlocked
    · rw [Program.run_bind] at hlocked
      obtain ⟨_, -, hlocked⟩ := Option.bind_eq_some_iff.1 hlocked
      cases hlocked
      rfl
    · rw [Program.run_bind] at hlocked
      obtain ⟨_, -, hlocked⟩ := Option.bind_eq_some_iff.1 hlocked
      cases hlocked
      rfl

include hp in
theorem dpaRegIf_step (hm : Represented pools m F) (hr : r.Ready pools bufSize)
    (ho : Owned m F s fun p ↦ holding pools r p ++ R p) (hlock : s.locked = false)
    (hclean : NoneLeftOver pools s r.dadp) (regOk : Bool) :
    ∃ r' s', (dpaRegIf pools bufSize regOk r).run (access pools) s = some (r', s') ∧
      Leaves pools bufSize m F R r r' s' := by
  have hrep := ho.represented hm
  by_cases hfull : r.dadp.refs = r.dadp.numRxRings
  · exact ⟨r, s, run_dpaRegIf_full hfull regOk, hr, rfl, rfl, ho, hlock⟩
  rw [dpaRegIf]
  rcases run_dpaNewIf hp hrep hlock hr.pointer with
    ⟨dadp', s', hrun⟩ | ⟨hrefs, x, hx, hrun⟩ | ⟨hrefs, x, rx', hrun, hfree, hfilled⟩
  · obtain ⟨hrefs, hnrx, hndesc, hptr, hkeep, hsame, -⟩ :=
      dpaNewIf_none hp hrep hlock hr.pointer hrun
    obtain rfl := hsame.2 hclean
    obtain ⟨hready, hholding⟩ := hr.failed hrefs hptr hkeep
    rw [Program.run_bind_of (run_regEnter_open hfull hrun)]
    refine ⟨_, s', rfl, hready, hnrx, hndesc, ?_, hlock⟩
    simp only [hholding]
    exact ho
  · have hxr := (hrep .ifPool).range x hx
    have hobj : IsObject (pools .ifPool) (newIf pools ((pools .ifPool).addrTbl x).vaddr
        { r.dadp with refs := r.dadp.refs + 1 }).va x := ⟨hxr.1, hxr.2, rfl⟩
    obtain ⟨hready, hholding⟩ := hr.again hp hrefs hobj
    rw [Program.run_bind_of (run_regEnter_open hfull hrun), hr.enabled.2 (hr.refs_pos.1 hrefs)]
    rw [hr.enabled.2 (hr.refs_pos.1 hrefs)] at hready hholding
    refine ⟨_, _, rfl, hready, rfl, rfl, ?_, hlock⟩
    refine (ho.take (FreeObjs.only hx)).perm fun p ↦ ?_
    refine (perm_append_swap _ _ _).trans ?_
    exact (hholding p).append_right _
  · have hdifs : r.difs = [] := by
      by_contra h
      exact hrefs (hr.refs_pos.2 h)
    have hfree' := hfree.of_sdiff
    have hx : x ∈ F .ifPool := (hfree' .ifPool).2 x (by simp)
    have hxr := (hm .ifPool).range x hx
    have hobj : IsObject (pools .ifPool) ((pools .ifPool).addrTbl x).vaddr x := ⟨hxr.1, hxr.2, rfl⟩
    have hoff : r.enabled = false := by
      rw [Bool.eq_false_iff]
      exact fun h ↦ hr.enabled.1 h hdifs
    rw [Program.run_bind_of (run_regEnter_open hfull hrun), hoff]
    cases regOk with
    | true =>
      have hdif : IsObject (pools .ifPool) (newIf pools ((pools .ifPool).addrTbl x).vaddr
          { r.dadp with refs := r.dadp.refs + 1, rxRings := rx' }).va x := hobj
      obtain ⟨hready, hholding⟩ := hr.first hp hdifs hdif hfilled
      refine ⟨_, _, rfl, hready, rfl, rfl, ?_, hlock⟩
      refine (ho.take hfree).perm fun p ↦ ?_
      refine (perm_append_swap _ _ _).trans ?_
      exact (hholding p).append_right _
    | false =>
      have hrefs' : r.dadp.refs + 1 ≤ 1 := by omega
      have hlast := run_destructor_last hp (s := s.takeAll fun p ↦ only .ifPool [x] p ++
        ringGrants pools rx' (List.range r.dadp.numRxRings) p)
        { r.dadp with refs := r.dadp.refs + 1, rxRings := rx' } hlock
        (fun j hj ↦ (hfilled j hj).pointer) hrefs' hobj
      have hback : (s.takeAll fun p ↦ only .ifPool [x] p ++
          ringGrants pools rx' (List.range r.dadp.numRxRings) p).putAll
          (returned pools { r.dadp with refs := r.dadp.refs + 1, rxRings := rx' } x) = s :=
        hrep.putAll_takeAll hfree (returned_perm hm hfree'.right)
      rw [hback] at hlast
      dsimp only [newIf, RegPoint.of]
      rw [if_neg Bool.false_ne_true]
      dsimp only
      rw [if_neg Bool.false_ne_true, Program.run_bind_of hlast]
      refine ⟨_, _, rfl, hr.undone hdifs fun j hj ↦ (hfilled j hj).pointer, rfl, rfl, ?_, hlock⟩
      refine ho.perm fun p ↦ ?_
      rw [holding_nil hdifs, holding_nil]
      exact hdifs

include hp in
theorem dpaRegIf_step_of_some (hm : Represented pools m F) (hr : r.Ready pools bufSize)
    (ho : Owned m F s fun p ↦ holding pools r p ++ R p) (hlock : s.locked = false) {dif : DpaIf}
    {dadp : DpaAdapter} {s₁ : PoolMemory}
    (hnew : (dpaNewIf pools bufSize r.dadp).run (access pools) s = some ((some dif, dadp), s₁))
    (regOk : Bool) :
    ∃ r' s', (dpaRegIf pools bufSize regOk r).run (access pools) s = some (r', s') ∧
      Leaves pools bufSize m F R r r' s' :=
  dpaRegIf_step hp hm hr ho hlock
    (noneLeftOver_of_some hp (ho.represented hm) hlock hr.pointer hnew) regOk

include hp in
theorem leaves_of_registered (hm : Represented pools m F) (hr : r.Ready pools bufSize)
    (ho : Owned m F s fun p ↦ holding pools r p ++ R p) (hlock : s.locked = false) {dif : DpaIf}
    {dadp : DpaAdapter} {s₁ : PoolMemory} (hopen : r.dadp.refs ≠ r.dadp.numRxRings)
    (hnew : (dpaNewIf pools bufSize r.dadp).run (access pools) s = some ((some dif, dadp), s₁)) :
    Leaves pools bufSize m F R r ⟨dadp, true, r.difs ++ [dif]⟩ s₁ := by
  obtain ⟨r', s', hrun, hleaves⟩ := dpaRegIf_step_of_some hp hm hr ho hlock hnew true
  rw [run_dpaRegIf_some hopen hnew] at hrun
  cases hrun
  exact hleaves

include hp in
theorem dpaDestructor_step (hm : Represented pools m F) (hr : r.Ready pools bufSize)
    (ho : Owned m F s fun p ↦ holding pools r p ++ R p) (hlock : s.locked = false) (k : ℕ) :
    ∃ r' s', (dpaDestructor pools k r).run (access pools) s = some (r', s') ∧
      Leaves pools bufSize m F R r r' s' := by
  rw [dpaDestructor]
  cases hk : r.difs[k]? with
  | none => exact ⟨r, s, rfl, hr, rfl, rfl, ho, hlock⟩
  | some dif =>
    have hmem : dif ∈ r.difs := List.mem_of_getElem? hk
    have hdifs : r.difs ≠ [] := List.ne_nil_of_mem hmem
    obtain ⟨x, hx⟩ := hr.difs dif hmem
    have hgrants : FreeObjs F (ringGrants pools r.dadp.rxRings (List.range r.dadp.numRxRings)) := by
      intro p
      have hall := ho.free p
      rw [holding_cons hdifs, List.append_assoc] at hall
      refine ⟨(List.nodup_append.1 (List.nodup_append.1 hall.1).2.1).1, fun y hy ↦ hall.2 y ?_⟩
      exact List.mem_append_right _ (List.mem_append_left _ hy)
    dsimp only
    by_cases hlast : r.dadp.refs ≤ 1
    · obtain ⟨hone, hnil⟩ := hr.only_dif hk hlast
      have hzero : r.dadp.refs - 1 ≤ 0 := by omega
      rw [Program.run_bind_of (run_destructor_last hp _ hlock hr.pointer hlast hx)]
      dsimp only
      rw [if_pos hzero, hnil]
      refine ⟨_, _, rfl, hr.last hone, rfl, rfl, ?_, hlock⟩
      have hswap := ho.perm (A := fun p ↦ R p ++ holding pools r p) fun p ↦ List.perm_append_comm
      refine (hswap.put hm fun p ↦ ?_).perm fun p ↦ ?_
      · rw [holding_cons hdifs, hone, List.flatMap_singleton, vaIndex_toList hp hx]
        exact returned_perm hm hgrants p
      · rw [holding_nil (r := ⟨_, _, []⟩) rfl, List.nil_append]
    · have hpos : ¬r.dadp.refs - 1 ≤ 0 := by omega
      obtain ⟨hready, hholding⟩ := hr.less hp hk (not_le.1 hlast) hx
      rw [Program.run_bind_of (run_destructor_more hp (not_le.1 hlast) hx)]
      dsimp only
      rw [if_neg hpos]
      refine ⟨_, _, rfl, hready, rfl, rfl, ?_, hlock⟩
      have hsplit := ho.perm fun p ↦ ((hholding p).append_right _).trans
        (perm_append_swap _ _ _)
      exact hsplit.put hm fun p ↦ List.Perm.refl _

end

end Dpa.Kernel
