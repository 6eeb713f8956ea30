import Dpa.Kernel.Host

namespace Dpa.Kernel

open Function Library MachineWord PoolMemory

/-- What happens between the first registration of an interface and the end of the last one: calls for
other descriptors, the user process writing to a ring, and the kernel at work on it. -/
inductive SessionOp
  | register (regOk : Bool)
  | unregister (k : ℕ)
  | write (j : ℕ) (ring : DpaRing)
  | sync (j : ℕ) (kring : DpaKring) (ring : DpaRing)
  | reinit (j : ℕ) (forceSync : Bool)

def Registry.withRing (r : Registry) (j : ℕ) (kring : DpaKring) (ring : DpaRing) : Registry :=
  { r with dadp := { r.dadp with
      rxRings := update r.dadp.rxRings j { r.dadp.rxRings j with kring := kring, ring := ring } } }

def Registry.bufIdxs (r : Registry) : List ℕ :=
  (List.range r.dadp.numRxRings).flatMap fun j ↦ slotIdxs (r.dadp.rxRings j)

section

variable (pools : PoolId → DpaObjPool) (bufSize : ℕ) (t : BufferTable)

/-- The last descriptor stays. A driver's `rx_sync` may leave anything in the two rings but another
number of slots. -/
def sessionExec (s : Registry × PoolMemory) : SessionOp → Option (Registry × PoolMemory)
  | .register regOk => (dpaRegIf pools bufSize regOk s.1).run (access pools) s.2
  | .unregister k =>
    if s.1.difs.length ≤ 1 then none else (dpaDestructor pools k s.1).run (access pools) s.2
  | .write j ring => some (s.1.withRing j (s.1.dadp.rxRings j).kring ring, s.2)
  | .sync j kring ring =>
    some (s.1.withRing j
      { kring with nkrNumSlots := (s.1.dadp.rxRings j).kring.nkrNumSlots } ring, s.2)
  | .reinit j forceSync =>
    let rx := s.1.dadp.rxRings j
    some (s.1.withRing j rx.kring (dpaRingReinit t bufSize rx.kring rx.ring forceSync).2, s.2)

end

/-- An interface in use, its rings being `rx` but for what is in them. -/
structure InSession (pools : PoolId → DpaObjPool) (m : PoolMemory) (F : PoolId → Finset ℕ)
    (nrx : ℕ) (rx : ℕ → RxRing) (s : Registry × PoolMemory) : Prop where
  numRxRings : s.1.dadp.numRxRings = nrx
  refs : s.1.dadp.refs = s.1.difs.length
  nonempty : s.1.difs ≠ []
  enabled : s.1.enabled = true
  ringVa : ∀ j, (s.1.dadp.rxRings j).ringVa = (rx j).ringVa
  numSlots : ∀ j, (s.1.dadp.rxRings j).kring.nkrNumSlots = (rx j).kring.nkrNumSlots
  difs : ∀ d ∈ s.1.difs, ∃ x, IsObject (pools .ifPool) d.va x
  owned : Owned m F s.2 fun p ↦
    (s.1.difs.flatMap fun d ↦ only .ifPool (vaIndex (pools .ifPool) d.va).toList p) ++
      ringGrants pools rx (List.range nrx) p
  unlocked : s.2.locked = false

section

variable {pools : PoolId → DpaObjPool} {bufSize : ℕ} {t : BufferTable} (hp : SoundPools pools bufSize)
  {m : PoolMemory} {F : PoolId → Finset ℕ} {nrx : ℕ} {rx : ℕ → RxRing} {s s' : Registry × PoolMemory}

theorem Registry.withRing_ringVa (r : Registry) (j : ℕ) (kring : DpaKring) (ring : DpaRing) (i : ℕ) :
    ((r.withRing j kring ring).dadp.rxRings i).ringVa = (r.dadp.rxRings i).ringVa := by
  change (update r.dadp.rxRings j { r.dadp.rxRings j with kring := kring, ring := ring } i).ringVa = _
  by_cases hi : i = j
  · rw [hi, update_self]
  · rw [update_of_ne hi]

theorem Registry.withRing_numSlots (r : Registry) (j : ℕ) {kring : DpaKring}
    (hnum : kring.nkrNumSlots = (r.dadp.rxRings j).kring.nkrNumSlots) (ring : DpaRing) (i : ℕ) :
    ((r.withRing j kring ring).dadp.rxRings i).kring.nkrNumSlots =
      (r.dadp.rxRings i).kring.nkrNumSlots := by
  change (update r.dadp.rxRings j
    { r.dadp.rxRings j with kring := kring, ring := ring } i).kring.nkrNumSlots = _
  by_cases hi : i = j
  · rw [hi, update_self]
    exact hnum
  · rw [update_of_ne hi]

theorem InSession.withRing (h : InSession pools m F nrx rx s) (j : ℕ) {kring : DpaKring}
    (hnum : kring.nkrNumSlots = (s.1.dadp.rxRings j).kring.nkrNumSlots) (ring : DpaRing) :
    InSession pools m F nrx rx (s.1.withRing j kring ring, s.2) :=
  { h with
    ringVa := fun i ↦ (s.1.withRing_ringVa j kring ring i).trans (h.ringVa i)
    numSlots := fun i ↦ (s.1.withRing_numSlots j hnum ring i).trans (h.numSlots i) }

include hp in
theorem InSession.register (hm : Represented pools m F) (h : InSession pools m F nrx rx s)
    (regOk : Bool) {a : Registry × PoolMemory}
    (hrun : (dpaRegIf pools bufSize regOk s.1).run (access pools) s.2 = some a) :
    InSession pools m F nrx rx a := by
  have hrep := h.owned.represented hm
  have hrefs : 0 < s.1.dadp.refs := by
    have hlen := List.length_pos_iff.2 h.nonempty
    rw [h.refs]
    omega
  by_cases hfull : s.1.dadp.refs = s.1.dadp.numRxRings
  · rw [run_dpaRegIf_full hfull] at hrun
    cases hrun
    exact h
  rw [dpaRegIf] at hrun
  by_cases hif : (F .ifPool \ ((s.1.difs.flatMap fun d ↦ only .ifPool
      (vaIndex (pools .ifPool) d.va).toList .ifPool) ++
        ringGrants pools rx (List.range nrx) .ifPool).toFinset).Nonempty ∧
      ifLen s.1.dadp.numRxRings ≤ (pools .ifPool).objSize
  · obtain ⟨x, hx, hagain⟩ := run_dpaNewIf_again hp hrep h.unlocked hif.1 hif.2 hrefs
    have hxr := (hrep .ifPool).range x hx
    have hobj : IsObject (pools .ifPool) ((pools .ifPool).addrTbl x).vaddr x := ⟨hxr.1, hxr.2, rfl⟩
    rw [Program.run_bind_of (run_regEnter_open hfull hagain), h.enabled] at hrun
    cases hrun
    refine ⟨h.numRxRings, ?_, ?_, rfl, h.ringVa, h.numSlots, fun d hd ↦ ?_, ?_, h.unlocked⟩
    · simp [h.refs]
    · simp
    · rcases List.mem_append.1 hd with hd | hd
      · exact h.difs d hd
      · obtain rfl := List.mem_singleton.1 hd
        exact ⟨x, hobj⟩
    · refine (h.owned.take (FreeObjs.only hx)).perm fun p ↦ ?_
      dsimp only [newIf]
      rw [List.flatMap_append, List.flatMap_singleton, vaIndex_toList hp hobj, List.append_assoc,
        List.append_assoc]
      exact List.Perm.append_left _ List.perm_append_comm
  · have hfail : (F .ifPool \ ((s.1.difs.flatMap fun d ↦ only .ifPool
        (vaIndex (pools .ifPool) d.va).toList .ifPool) ++
          ringGrants pools rx (List.range nrx) .ifPool).toFinset) = ∅ ∨
        (pools .ifPool).objSize < ifLen s.1.dadp.numRxRings := by
      rw [← Finset.not_nonempty_iff_eq_empty, ← not_le]
      exact not_and_or.1 hif
    rw [Program.run_bind_of (run_regEnter_open hfull
      (run_dpaNewIf_noIf hrep h.unlocked hfail))] at hrun
    cases hrun
    exact h

include hp in
theorem InSession.unregister (hm : Represented pools m F) (h : InSession pools m F nrx rx s)
    (hmore : 1 < s.1.difs.length) (k : ℕ) {a : Registry × PoolMemory}
    (hrun : (dpaDestructor pools k s.1).run (access pools) s.2 = some a) :
    InSession pools m F nrx rx a := by
  rw [dpaDestructor] at hrun
  cases hk : s.1.difs[k]? with
  | none =>
    rw [hk] at hrun
    cases hrun
    exact h
  | some dif =>
    obtain ⟨hlt, heq⟩ := List.getElem?_eq_some_iff.1 hk
    have hmem : dif ∈ s.1.difs := heq ▸ List.getElem_mem hlt
    have hperm : s.1.difs.Perm (dif :: s.1.difs.eraseIdx k) :=
      heq ▸ (List.getElem_cons_eraseIdx_perm hlt).symm
    have hlen := hperm.length_eq
    rw [List.length_cons] at hlen
    obtain ⟨x, hx⟩ := h.difs dif hmem
    have hrefs := h.refs
    rw [hk] at hrun
    dsimp only at hrun
    rw [Program.run_bind_of (run_destructor_more hp (by omega) hx)] at hrun
    dsimp only at hrun
    rw [if_neg (by omega)] at hrun
    cases hrun
    refine ⟨h.numRxRings, ?_, ?_, h.enabled, h.ringVa, h.numSlots,
      fun d hd ↦ h.difs d (List.mem_of_mem_eraseIdx hd), ?_, h.unlocked⟩
    · dsimp only
      omega
    · rw [← List.length_pos_iff]
      dsimp only
      omega
    · have hsplit : ∀ p, ((s.1.difs.flatMap fun d ↦
          only .ifPool (vaIndex (pools .ifPool) d.va).toList p) ++
            ringGrants pools rx (List.range nrx) p).Perm
          ((((s.1.difs.eraseIdx k).flatMap fun d ↦
            only .ifPool (vaIndex (pools .ifPool) d.va).toList p) ++
              ringGrants pools rx (List.range nrx) p) ++ only .ifPool [x] p) := by
        intro p
        have hflat := hperm.flatMap_right fun d ↦
          only .ifPool (vaIndex (pools .ifPool) d.va).toList p
        rw [List.flatMap_cons, vaIndex_toList hp hx] at hflat
        refine (hflat.append_right _).trans ?_
        rw [List.append_assoc]
        exact List.perm_append_comm
      exact (h.owned.perm hsplit).put hm fun p ↦ List.Perm.refl _

include hp in
theorem InSession.step (hm : Represented pools m F) (h : InSession pools m F nrx rx s)
    {op : SessionOp} (hexec : sessionExec pools bufSize t s op = some s') :
    InSession pools m F nrx rx s' := by
  cases op with
  | register regOk => exact h.register hp hm regOk hexec
  | unregister k =>
    rw [sessionExec] at hexec
    split_ifs at hexec with hone
    exact h.unregister hp hm (not_le.1 hone) k hexec
  | write j ring =>
    cases hexec
    exact h.withRing j rfl ring
  | sync j kring ring =>
    cases hexec
    refine h.withRing j ?_ ring
    rfl
  | reinit j forceSync =>
    cases hexec
    exact h.withRing j rfl _

include hp in
theorem InSession.run (hm : Represented pools m F) {ops : List SessionOp}
    (h : InSession pools m F nrx rx s)
    (hrun : Library.run (sessionExec pools bufSize t) ops s = some s') :
    InSession pools m F nrx rx s' :=
  run_preserves (P := InSession pools m F nrx rx) (fun _ _ _ h hexec ↦ h.step hp hm hexec) h hrun

variable {r₀ r₁ : Registry} {s₀ s₁ : PoolMemory}

include hp in
/-- The first registration opens a session in which the interface owns what its rings hold. -/
theorem InSession.first (hm : Represented pools s₀ F) (hlock : s₀.locked = false)
    (hready : r₀.Ready pools bufSize) (hidle : r₀.difs = []) {regOk : Bool}
    (hrun : (dpaRegIf pools bufSize regOk r₀).run (access pools) s₀ = some (r₁, s₁))
    (hdifs : r₁.difs ≠ []) :
    InSession pools s₀ F r₁.dadp.numRxRings r₁.dadp.rxRings (r₁, s₁) ∧ r₁.Ready pools bufSize ∧
      r₁.dadp.numRxRings = r₀.dadp.numRxRings ∧ r₁.dadp.numRxDescs = r₀.dadp.numRxDescs := by
  have hnone : Owned s₀ F s₀ fun p ↦ holding pools r₀ p ++ [] := by
    refine ⟨fun p ↦ ?_, ?_⟩
    · rw [holding_nil hidle]
      exact ⟨List.nodup_nil, fun _ hx ↦ absurd hx List.not_mem_nil⟩
    · have hnil : s₀.takeAll (fun p ↦ holding pools r₀ p) = s₀.takeAll fun _ ↦ [] :=
        congrArg (takeAll s₀) (funext fun p ↦ holding_nil hidle p)
      simp only [List.append_nil]
      exact hnil.symm
  rcases run_dpaRegIf_difs hrun with hsame | ⟨-, dif, -, dadp, s, hnew⟩
  · exact absurd (hsame.trans hidle) hdifs
  obtain ⟨r', s', hrun', hready', hnrx, hndesc, howned, hlock'⟩ :=
    dpaRegIf_step_of_some hp hm hready hnone hlock hnew regOk
  rw [hrun] at hrun'
  cases hrun'
  refine ⟨⟨rfl, hready'.refs, hdifs, hready'.enabled.2 hdifs, fun _ ↦ rfl, fun _ ↦ rfl, hready'.difs,
    howned.perm fun p ↦ ?_, hlock'⟩, hready', hnrx, hndesc⟩
  rw [List.append_nil, holding_cons hdifs]

/-- A list with as many entries as another, all valid, is a permutation of it if and only if its
valid entries are. -/
theorem validBufs_perm_iff {pool : DpaObjPool} {l l' : List ℕ} (hlen : l.length = l'.length)
    (hvalid : ∀ x ∈ l', 2 ≤ x ∧ x < pool.objTotal) :
    (validBufs pool l).Perm l' ↔ l.Perm l' := by
  constructor
  · intro h
    have hall : validBufs pool l = l := by
      refine List.filter_eq_self.2 fun x hx ↦ ?_
      have hfilter : (validBufs pool l).length = l.length := h.length_eq.trans hlen.symm
      exact List.length_filter_eq_length_iff.1 hfilter x hx
    rwa [hall] at h
  · intro h
    have hall : validBufs pool l = l :=
      List.filter_eq_self.2 fun x hx ↦ decide_eq_true (hvalid x (h.mem_iff.1 hx))
    rwa [hall]

include hp in
theorem InSession.last {ndesc : ℕ} (h : InSession pools m F nrx rx s)
    (hfilled : ∀ j < nrx, Filled pools bufSize ndesc (rx j)) {dif : DpaIf} (hone : s.1.difs = [dif]) :
    ∃ x, IsObject (pools .ifPool) dif.va x ∧
      (dpaDestructor pools 0 s.1).run (access pools) s.2 =
        some (⟨{ s.1.dadp with refs := s.1.dadp.refs - 1 }, false, []⟩,
          s.2.putAll (returned pools s.1.dadp x)) := by
  obtain ⟨x, hx⟩ := h.difs dif (by rw [hone]; simp)
  have hrefs : s.1.dadp.refs = 1 := by
    rw [h.refs, hone]
    rfl
  have hptr : ∀ j < s.1.dadp.numRxRings, Pointer pools (s.1.dadp.rxRings j) := by
    intro j hj
    rw [h.numRxRings] at hj
    rw [Pointer, h.ringVa j]
    exact (hfilled j hj).pointer
  refine ⟨x, hx, ?_⟩
  rw [dpaDestructor, hone]
  dsimp only [List.getElem?_cons_zero]
  rw [Program.run_bind_of (run_destructor_last hp _ h.unlocked hptr hrefs.le hx)]
  dsimp only
  rw [if_pos (by omega)]
  rfl

include hp in
/-- The end of the last registration leaves the pools as they were before the first one if, and only
if, the slots hold the buffers they were given, in any order. -/
theorem undone_iff (hm : Represented pools s₀ F) (hlock : s₀.locked = false)
    (hready : r₀.Ready pools bufSize) (hidle : r₀.difs = []) {regOk : Bool}
    (hfirst : (dpaRegIf pools bufSize regOk r₀).run (access pools) s₀ = some (r₁, s₁))
    (hdifs : r₁.difs ≠ []) {ops : List SessionOp} {r₂ : Registry} {s₂ : PoolMemory}
    (hops : Library.run (sessionExec pools bufSize t) ops (r₁, s₁) = some (r₂, s₂)) {k : ℕ}
    {r₃ : Registry} {s₃ : PoolMemory}
    (hlast : (dpaDestructor pools k r₂).run (access pools) s₂ = some (r₃, s₃)) (hend : r₃.difs = []) :
    (∀ q, s₃.words q = s₀.words q) ↔ r₂.bufIdxs.Perm r₁.bufIdxs := by
  obtain ⟨hin₁, hready₁, -⟩ := InSession.first hp hm hlock hready hidle hfirst hdifs
  have hin := hin₁.run hp hm hops
  have hfilled := hready₁.filled hdifs
  obtain ⟨dif, hdif⟩ : ∃ dif, r₂.difs = [dif] ∧ k = 0 := by
    have herase := (run_dpaDestructor_eq hlast).2
    have hne : 0 < r₂.difs.length := List.length_pos_iff.2 hin.nonempty
    rw [hend] at herase
    have hlen := congrArg List.length herase
    rw [List.length_nil] at hlen
    by_cases hk : k < r₂.difs.length
    · rw [List.length_eraseIdx_of_lt hk] at hlen
      obtain ⟨dif, hdif⟩ := List.length_eq_one_iff.1 (show r₂.difs.length = 1 by omega)
      refine ⟨dif, hdif, ?_⟩
      rw [hdif] at hk
      exact Nat.lt_one_iff.1 hk
    · rw [List.eraseIdx_of_length_le (not_lt.1 hk)] at hlen
      omega
  obtain ⟨hdif, rfl⟩ := hdif
  obtain ⟨x, hx, hrun⟩ := hin.last hp hfilled hdif
  rw [hlast] at hrun
  cases hrun
  have howned := hin.owned
  simp only [hdif, List.flatMap_singleton, vaIndex_toList hp hx] at howned
  have hrings : ((List.range r₂.dadp.numRxRings).flatMap fun j ↦ ringObj pools (r₂.dadp.rxRings j)) =
      (List.range r₁.dadp.numRxRings).flatMap fun j ↦ ringObj pools (r₁.dadp.rxRings j) := by
    rw [hin.numRxRings]
    refine List.flatMap_congr fun j _ ↦ ?_
    have hva := hin.ringVa j
    rw [ringObj, ringObj, hva]
  have hbufs : returned pools r₂.dadp x .bufPool = validBufs (pools .bufPool) r₂.bufIdxs := by
    rw [Registry.bufIdxs, validBufs, List.filter_flatMap]
    simp [returned, only_of_ne, validBufs]
  have hlen : r₂.bufIdxs.length = r₁.bufIdxs.length := by
    rw [Registry.bufIdxs, Registry.bufIdxs, hin.numRxRings, List.length_flatMap, List.length_flatMap]
    congr 1
    refine List.map_congr_left fun j _ ↦ ?_
    have hnum := hin.numSlots j
    rw [slotIdxs, slotIdxs, List.length_map, List.length_map, List.length_range, List.length_range,
      hnum]
  have hvalid : ∀ y ∈ r₁.bufIdxs, 2 ≤ y ∧ y < (pools .bufPool).objTotal := fun y hy ↦
    (hm .bufPool).range y ((howned.free .bufPool).2 y (List.mem_append_right _ hy))
  rw [← validBufs_perm_iff hlen hvalid, ← hbufs, howned.memory]
  have hgrant : only .ifPool [x] .bufPool ++
      ringGrants pools r₁.dadp.rxRings (List.range r₁.dadp.numRxRings) .bufPool = r₁.bufIdxs := by
    rw [only_of_ne (by decide), List.nil_append, ringGrants_bufPool, Registry.bufIdxs]
  constructor
  · intro h
    have hperm := hm.perm_of_putAll_takeAll howned.free (h .bufPool)
    rwa [hgrant] at hperm
  · intro h q
    refine congrFun (congrArg PoolMemory.words (hm.putAll_takeAll howned.free fun p ↦ ?_)) q
    cases p with
    | ifPool => simp [returned, only_of_ne]
    | ringPool =>
      simp only [returned, only_self, only_of_ne, ne_eq, reduceCtorEq, not_false_eq_true,
        List.append_nil, List.nil_append, ringGrants_ringPool]
      rw [hrings]
    | bufPool =>
      rw [hgrant]
      exact h

end

/-- Whatever a process writes to the rings of an interface, the pools of the module are the same after
the last unregistration as before the first registration if, and only if, the slots then hold the
buffers they were given, in any order. -/
theorem registration_undone_iff {p : Params} {getFreePages : PoolId → ℕ → ℕ} {virtToPhys : ℕ → ℕ}
    (hpages : Pages getFreePages (dpaParamInit p)) {a : DpaMemAllocator}
    (ha : dpaMemInit getFreePages virtToPhys (dpaParamInit p) = some a) (t : BufferTable)
    {s₀ : PoolMemory} {F : PoolId → Finset ℕ} (hm : Represented a.pools s₀ F)
    (hlock : s₀.locked = false) {r₀ : Registry} (hready : r₀.Ready a.pools (dpaParamInit p).bufSize)
    (hidle : r₀.difs = []) {regOk : Bool} {r₁ : Registry} {s₁ : PoolMemory}
    (hfirst : (dpaRegIf a.pools (dpaParamInit p).bufSize regOk r₀).run (access a.pools) s₀ =
      some (r₁, s₁)) (hdifs : r₁.difs ≠ []) {ops : List SessionOp} {r₂ : Registry} {s₂ : PoolMemory}
    (hops : run (sessionExec a.pools (dpaParamInit p).bufSize t) ops (r₁, s₁) = some (r₂, s₂)) {k : ℕ}
    {r₃ : Registry} {s₃ : PoolMemory}
    (hlast : (dpaDestructor a.pools k r₂).run (access a.pools) s₂ = some (r₃, s₃))
    (hend : r₃.difs = []) :
    (∀ q, s₃.words q = s₀.words q) ↔ r₂.bufIdxs.Perm r₁.bufIdxs := by
  obtain ⟨-, hp, -⟩ := loaded_pools hpages ha
  exact undone_iff hp hm hlock hready hidle hfirst hdifs hops hlast hend

def emptied : DpaRing := ⟨256, 0, 0, 0, 0, 2048, fun _ ↦ zeroSlot⟩

def bufferTable : BufferTable := ⟨514, id, id, fun _ _ _ _ h ↦ h, fun _ _ _ _ h ↦ h⟩

theorem emptied_run : ∃ a, dpaMemInit farPages id (dpaParamInit crowded) = some a ∧
    SoundPools a.pools (dpaParamInit crowded).bufSize ∧
    (Represented a.pools ⟨a.words, false⟩ fun q ↦ Finset.Ico 2 (a.pools q).objTotal) ∧
    ∃ r₁ s₁ r₂ s₂ r₃ s₃,
      (dpaRegIf a.pools (dpaParamInit crowded).bufSize true (dpaAttach 2 256)).run (access a.pools)
        ⟨a.words, false⟩ = some (r₁, s₁) ∧ r₁.difs ≠ [] ∧
      run (sessionExec a.pools (dpaParamInit crowded).bufSize bufferTable) [.write 0 emptied]
        (r₁, s₁) = some (r₂, s₂) ∧
      (dpaDestructor a.pools 0 r₂).run (access a.pools) s₂ = some (r₃, s₃) ∧ r₃.difs = [] ∧
      (∀ y ∈ r₁.bufIdxs, 2 ≤ y) ∧ 0 ∈ r₂.bufIdxs := by
  obtain ⟨a, ha, hp, hm, hif, hlen, hring, hrlen, hbuf⟩ := crowded_loads
  have hfree : ∀ q, (a.words q).objFree = (a.pools q).objTotal - 2 := fun q ↦ by
    rw [(hm q).count, Nat.card_Ico]
  have hcount : ¬0 < (dpaAttach 2 256).dadp.refs → Counted a.pools ⟨a.words, false⟩
      (dpaAttach 2 256).dadp.numRxDescs (dpaAttach 2 256).dadp.numRxRings := fun _ ↦ by
    refine .inr ⟨hrlen, ?_, ?_⟩
    · rw [hfree, hring]
      decide
    · rw [hfree, hbuf]
      decide
  obtain ⟨dif, dadp, s, hnew⟩ := run_dpaNewIf_some hp hm rfl (by rw [hfree, hif]; decide) hlen hcount
  have hfirst := run_dpaRegIf_some (by decide) hnew
  obtain ⟨hin, hready, hnrx, hndesc⟩ :=
    InSession.first hp hm rfl (.attached _ _ _ _) rfl hfirst (by simp)
  have hfilled := hready.filled (by simp)
  have hin₂ := hin.withRing 0 rfl emptied
  obtain ⟨x, -, hlast⟩ := hin₂.last hp hfilled rfl
  refine ⟨a, ha, hp, hm, _, _, _, _, _, _, hfirst, by simp, rfl, hlast, rfl, fun y hy ↦ ?_, ?_⟩
  · exact ((hm .bufPool).range y ((hin.owned.free .bufPool).2 y (List.mem_append_right _ hy))).1
  · have hnum : ((Registry.withRing ⟨dadp, true, [] ++ [dif]⟩ 0 (dadp.rxRings 0).kring
        emptied).dadp.rxRings 0).kring.nkrNumSlots = 256 := by
      rw [Registry.withRing_numSlots _ 0 rfl emptied 0]
      obtain ⟨x, slot, -, heq⟩ := hfilled 0 (by rw [hnrx]; decide)
      rw [heq, hndesc]
      rfl
    refine List.mem_flatMap.2 ⟨0, List.mem_range.2 ?_, List.mem_map.2 ⟨0, List.mem_range.2 ?_, rfl⟩⟩
    · exact lt_of_lt_of_eq (by decide : 0 < 2) hnrx.symm
    · exact lt_of_lt_of_eq (by decide : 0 < 256) hnum.symm

theorem registration_undone_iff_emptied : ∃ a, dpaMemInit farPages id (dpaParamInit crowded) = some a ∧
    ∃ r₁ s₁ r₂ s₂ r₃ s₃,
      (dpaRegIf a.pools (dpaParamInit crowded).bufSize true (dpaAttach 2 256)).run (access a.pools)
        ⟨a.words, false⟩ = some (r₁, s₁) ∧
      run (sessionExec a.pools (dpaParamInit crowded).bufSize bufferTable) [.write 0 emptied]
        (r₁, s₁) = some (r₂, s₂) ∧
      (dpaDestructor a.pools 0 r₂).run (access a.pools) s₂ = some (r₃, s₃) ∧
      ((∀ q, s₃.words q = a.words q) ↔ r₂.bufIdxs.Perm r₁.bufIdxs) := by
  obtain ⟨a, ha, -, hm, r₁, s₁, r₂, s₂, r₃, s₃, hfirst, hdifs, hops, hlast, hend, -⟩ := emptied_run
  exact ⟨a, ha, r₁, s₁, r₂, s₂, r₃, s₃, hfirst, hops, hlast,
    registration_undone_iff (farPages_pages crowded) ha bufferTable hm rfl (.attached _ _ _ _) rfl
      hfirst hdifs hops hlast hend⟩

/-- The buffers of the emptied ring are lost. -/
theorem emptied_not_undone : ∃ a, dpaMemInit farPages id (dpaParamInit crowded) = some a ∧
    ∃ r₁ s₁ r₂ s₂ r₃ s₃,
      (dpaRegIf a.pools (dpaParamInit crowded).bufSize true (dpaAttach 2 256)).run (access a.pools)
        ⟨a.words, false⟩ = some (r₁, s₁) ∧
      run (sessionExec a.pools (dpaParamInit crowded).bufSize bufferTable) [.write 0 emptied]
        (r₁, s₁) = some (r₂, s₂) ∧
      (dpaDestructor a.pools 0 r₂).run (access a.pools) s₂ = some (r₃, s₃) ∧ r₃.difs = [] ∧
      ¬∀ q, s₃.words q = a.words q := by
  obtain ⟨a, ha, hp, hm, r₁, s₁, r₂, s₂, r₃, s₃, hfirst, hdifs, hops, hlast, hend, htwo, hzero⟩ :=
    emptied_run
  refine ⟨a, ha, r₁, s₁, r₂, s₂, r₃, s₃, hfirst, hops, hlast, hend, fun hall ↦ ?_⟩
  have hperm := (undone_iff hp hm rfl (.attached _ _ _ _) rfl hfirst hdifs hops hlast hend).1 hall
  exact absurd (htwo 0 (hperm.mem_iff.1 hzero)) (by decide)

end Dpa.Kernel
