import Dpa.Kernel.Ioctl

namespace Dpa.Kernel.Ioctl

open Driver Library MachineWord

/-- What a file is registered for: an interface and the number it was given of its rings. -/
structure Session where
  netdev : ℕ
  ringId : ℕ
  deriving DecidableEq

structure Outcome where
  error : Option Errno
  synced : List ℕ
  deriving DecidableEq

def Reply.outcome (r : Reply) : Outcome := ⟨r.error, r.synced⟩

abbrev Sessions := List (Option Session)

def usesNetdev (n : ℕ) (s : Option Session) : Bool := s.any fun s ↦ s.netdev = n

def Sessions.users (t : Sessions) (n : ℕ) : ℕ := t.countP (usesNetdev n)

namespace Sessions

-- the interfaces by their ring and descriptor counts
variable (dims : List (ℕ × ℕ))

def ringsOf (n : ℕ) : ℕ := (dims[n]?.map Prod.fst).getD 0

def missing (env : Surroundings) : Option Errno :=
  if dims.length ≤ env.netdev ∨ env.lookup = .noDevice then some .nodev
  else if env.lookup = .found then none
  else some .inval

def refusal (env : Surroundings) (queueId : ℕ) (t : Sessions) : Option Errno :=
  match missing dims env with
  | some e => some e
  | none =>
    if ¬env.kmalloc then some .nomem
    else if ringsOf dims env.netdev ≤ queueId &&& ringIdMask then some .inval
    else if t.users env.netdev = ringsOf dims env.netdev then some .busy
    else if t.users env.netdev = 0 then env.reg.map fun err ↦ .driver err.errno
    else none

/-- A file that is registered stays with its interface, whatever name it gives. -/
def register (env : Surroundings) (queueId k : ℕ) (t : Sessions) :
    Option Session → Option Errno × Sessions
  | some s =>
    if queueId &&& ringIdMask < ringsOf dims s.netdev then
      (none, t.set k (some { s with ringId := queueId }))
    else (some .inval, t)
  | none =>
    match refusal dims env queueId t with
    | some e => (some e, t)
    | none => (none, t.set k (some ⟨env.netdev, queueId⟩))

def rings (s : Session) : List ℕ :=
  if s.ringId &&& dpaRingFlagAll ≠ 0 then List.range (ringsOf dims s.netdev)
  else [s.ringId &&& ringIdMask]

/-- Whether the statistics asked for can be had: the drivers count what is dropped and what is
erroneous for all rings at once. -/
def countable (env : Surroundings) (rxStats : DpaRxStats) : Bool :=
  env.carrierOk && (isSet rxStats.queueId dpaQueueFlagAll || perQueue rxStats.opCode &&
    decide ((rxStats.queueId &&& dpaRingIdMask).toNat < ringsOf dims env.netdev))

def call (env : Surroundings) (para : IocPara) (k : ℕ) (t : Sessions) (s : Option Session) :
    Request → Outcome × Sessions
  | .getInfo => (⟨if para.ifName = "" then none else missing dims env, []⟩, t)
  | .regIf =>
    let (e, t) := register dims env para.queueId k t s
    (⟨e, []⟩, t)
  | .unregIf => if s.isNone then (⟨some .nxio, []⟩, t) else (⟨none, []⟩, t.set k none)
  | .rxSync => (s.elim ⟨some .nxio, []⟩ fun s ↦ ⟨none, rings dims s⟩, t)
  | .getRxStats =>
    (⟨if para.ifName = "" then none else (missing dims env).or
      (if countable dims env para.rxStats then none else some .inval), []⟩, t)
  | .other => (⟨some .opnotsupp, []⟩, t)

/-- What the device is for: the files have sessions, as many for each interface as it has rings at
most. -/
def answer (t : Sessions) (e : ℕ × FileOp) : Outcome × Sessions :=
  match t[e.1]? with
  | none => (⟨none, []⟩, t)
  | some s =>
    match e.2 with
    | .ioctl env cmd arg =>
      match refused env cmd arg with
      | some e => (⟨some e, []⟩, t)
      | none =>
        let (o, t) := call dims env (arg.getD zeroPara) e.1 t s (request cmd)
        (if arg.isSome ∧ ¬env.copyToUser then { o with error := some .fault } else o, t)
    | .close => (⟨none, []⟩, t.set e.1 none)

end Sessions

def FilePriv.session (priv : FilePriv) : Session := ⟨priv.netdev, priv.ringId⟩

def share (n : ℕ) : Option FilePriv → List DpaIf
  | none => []
  | some priv => if priv.netdev = n then [priv.dif] else []

def CharDev.difs (d : CharDev) (n : ℕ) : List DpaIf := d.files.flatMap (share n)

/-- The device is a host of interfaces whose descriptors are the files, in any order. -/
structure Mirrors (d : CharDev) (h : Host) : Prop where
  memory : d.memory = h.memory
  length : d.netdevs.length = h.interfaces.length
  netdev : ∀ (n : ℕ) (dev : Netdev), d.netdevs[n]? = some dev → ∃ difs : List DpaIf,
    h.interfaces[n]? = some ⟨dev.dadp, dev.enabled, difs⟩ ∧ (d.difs n).Perm difs ∧
      dev.netdevRefs = difs.length ∧ dev.moduleRefs = difs.length

/-- An invariant of hosts under which there is always room for another registration. -/
structure Roomy (pools : PoolId → DpaObjPool) (bufSize : ℕ) (dims : List (ℕ × ℕ)) (Inv : Host → Prop) :
    Prop where
  step : ∀ (h : Host) c, Inv h → ∃ h', hostExec pools bufSize h c = some h' ∧ Inv h'
  room : ∀ (h : Host) (n : ℕ) (r : Registry), Inv h → h.interfaces[n]? = some r → r.dadp.refs ≠ r.dadp.numRxRings →
    ∃ dif dadp s, (dpaNewIf pools bufSize r.dadp).run (access pools) h.memory =
      some ((some dif, dadp), s)
  ready : ∀ h : Host, Inv h → ∀ r ∈ h.interfaces, r.Ready pools bufSize
  dims : ∀ h : Host, Inv h → (h.interfaces.map fun r ↦ (r.dadp.numRxRings, r.dadp.numRxDescs)) = dims

structure Serves (pools : PoolId → DpaObjPool) (bufSize : ℕ) (dims : List (ℕ × ℕ)) (Inv : Host → Prop)
    (d : CharDev) (t : Sessions) : Prop where
  host : ∃ h, Inv h ∧ (∀ r ∈ h.interfaces, r.Linked pools bufSize) ∧ Mirrors d h
  files : d.files.map (Option.map FilePriv.session) = t
  selected : ∀ (k : ℕ) (priv : FilePriv), d.files[k]? = some (some priv) → priv.netdev < dims.length ∧
    dpaSetRingId (Sessions.ringsOf dims priv.netdev) priv.ringId = .ok priv.toRingSel

section

variable {d : CharDev} {n k : ℕ} {x y x' y' : ℤ} {old new : Option FilePriv} {env : Surroundings}
  {dims : List (ℕ × ℕ)}

theorem hold_hold : (d.hold n x y).hold n x' y' = d.hold n (x + x') (y + y') := by
  rw [CharDev.hold, CharDev.hold, CharDev.hold, CharDev.modify, CharDev.modify, CharDev.modify]
  dsimp only
  rw [List.modify_modify_eq]
  simp only [Function.comp_def, add_assoc]

theorem hold_zero : d.hold n 0 0 = d := by
  rw [CharDev.hold, CharDev.modify]
  simp only [add_zero]
  rw [show (fun dev : Netdev ↦ dev) = id from rfl, List.modify_id]

theorem release_acquired : dpaReleaseNetdev n (d.hold n 1 1) = d := by
  rw [dpaReleaseNetdev, hold_hold]
  exact hold_zero

theorem acquire_missing (hlen : d.netdevs.length = dims.length) {e : Errno}
    (h : Sessions.missing dims env = some e) : dpaAcquireNetdev env d = (.error e, d) := by
  rw [Sessions.missing] at h
  rw [dpaAcquireNetdev]
  cases hn : d.netdevs[env.netdev]? with
  | none =>
    rw [if_pos (.inl (hlen ▸ List.getElem?_eq_none_iff.1 hn))] at h
    cases h
    rfl
  | some dev =>
    obtain ⟨hlt, -⟩ := List.getElem?_eq_some_iff.1 hn
    dsimp only
    by_cases hno : env.lookup = .noDevice
    · rw [if_pos (.inr hno)] at h
      cases h
      rw [if_pos hno]
    · rw [if_neg (not_or.2 ⟨by omega, hno⟩)] at h
      rw [if_neg hno]
      by_cases hfound : env.lookup = .found
      · rw [if_pos hfound] at h
        cases h
      · rw [if_neg hfound] at h
        cases h
        rw [if_neg hfound, hold_hold]
        exact congrArg (Prod.mk _) hold_zero

theorem acquire_found (hlen : d.netdevs.length = dims.length)
    (h : Sessions.missing dims env = none) : ∃ dev, d.netdevs[env.netdev]? = some dev ∧
      dpaAcquireNetdev env d = (.ok dev, d.hold env.netdev 1 1) := by
  rw [Sessions.missing] at h
  by_cases hno : dims.length ≤ env.netdev ∨ env.lookup = .noDevice
  · rw [if_pos hno] at h
    cases h
  · rw [if_neg hno] at h
    rw [not_or, not_le, ← hlen] at hno
    have hn := List.getElem?_eq_getElem hno.1
    refine ⟨_, hn, ?_⟩
    rw [dpaAcquireNetdev, hn]
    dsimp only
    by_cases hfound : env.lookup = .found
    · rw [if_neg hno.2, if_pos hfound, hold_hold]
      rfl
    · rw [if_neg hfound] at h
      cases h

theorem difs_setFile (hk : d.files[k]? = some old) (new : Option FilePriv) (n : ℕ) :
    (share n old ++ (d.setFile k new).difs n).Perm (share n new ++ d.difs n) := by
  have hold := (perm_getElem? hk).flatMap_right (share n)
  have hnew := (perm_set hk new).flatMap_right (share n)
  rw [List.flatMap_cons] at hold hnew
  refine (hnew.append_left _).trans (.trans ?_ (hold.append_left _).symm)
  rw [← List.append_assoc, ← List.append_assoc]
  exact List.perm_append_comm.append_right _

theorem length_difs (files : List (Option FilePriv)) (n : ℕ) :
    (files.flatMap (share n)).length =
      Sessions.users (files.map (Option.map FilePriv.session)) n := by
  rw [Sessions.users, List.countP_map, List.length_flatMap]
  induction files with
  | nil => rfl
  | cons f files ih =>
    rw [List.map_cons, List.sum_cons, List.countP_cons, ih, add_comm]
    congr 1
    cases f with
    | none => rfl
    | some priv =>
      by_cases hn : priv.netdev = n
      · simp [share, usesNetdev, FilePriv.session, hn]
      · simp [share, usesNetdev, FilePriv.session, hn]

end

section

variable {pools : PoolId → DpaObjPool} {bufSize n k queueId : ℕ} {d d' : CharDev} {h h' : Host}
  {dev dev' : Netdev} {difs difs' : List DpaIf} {r : Registry} {dadp : DpaAdapter} {dif : DpaIf}
  {s s' : PoolMemory} {env : Surroundings} {sel : RingSel}

/-- One interface is left otherwise than it was found. -/
theorem Mirrors.step (hd : Mirrors d h) (hn : d.netdevs[n]? = some dev) {f : Netdev → Netdev}
    (hf : f dev = dev') (hmemory : d'.memory = h'.memory) (hnetdevs : d'.netdevs = d.netdevs.modify n f)
    (hints : h'.interfaces = h.interfaces.set n ⟨dev'.dadp, dev'.enabled, difs'⟩)
    (hdifs : (d'.difs n).Perm difs') (hothers : ∀ m, m ≠ n → (d'.difs m).Perm (d.difs m))
    (hnetdevRefs : dev'.netdevRefs = difs'.length) (hmoduleRefs : dev'.moduleRefs = difs'.length) :
    Mirrors d' h' where
  memory := hmemory
  length := by
    rw [hnetdevs, hints, List.length_modify, List.length_set]
    exact hd.length
  netdev := by
    intro m dev₁ hm
    rw [hnetdevs] at hm
    rw [hints]
    by_cases hmn : n = m
    · subst hmn
      rw [List.getElem?_modify_eq, hn] at hm
      cases hm
      obtain ⟨hlt, -⟩ := List.getElem?_eq_some_iff.1 hn
      refine ⟨difs', ?_, hdifs, hf ▸ hnetdevRefs, hf ▸ hmoduleRefs⟩
      rw [List.getElem?_set_self (hd.length ▸ hlt), hf]
    · rw [List.getElem?_modify_ne _ _ hmn] at hm
      obtain ⟨difs, hr, hperm, hrefs⟩ := hd.netdev m dev₁ hm
      refine ⟨difs, ?_, (hothers m (Ne.symm hmn)).trans hperm, hrefs⟩
      rw [List.getElem?_set_ne hmn]
      exact hr

theorem hostCall_some {f : Registry → PoolProgram Registry} (hn : h.interfaces[n]? = some r)
    (hcall : hostCall pools n f h = some h') : ∃ r' s', (f r).run (access pools) h.memory = some (r', s') ∧
      h' = ⟨s', h.interfaces.set n r'⟩ := by
  rw [hostCall, hn] at hcall
  obtain ⟨⟨r', s'⟩, hrun, rfl⟩ := Option.map_eq_some_iff.1 hcall
  exact ⟨r', s', hrun, rfl⟩

theorem run_regLocked_ok (hsel : dpaSetRingId dadp.numRxRings queueId = .ok sel)
    (hopen : dadp.refs ≠ dadp.numRxRings) {dadp' : DpaAdapter} {e : Bool}
    (hnew : (dpaNewIf pools bufSize dadp).run (access pools) s = some ((some dif, dadp'), s'))
    (hok : e = true ∨ env.reg = none) :
    (regLocked pools bufSize env queueId dadp e).run (access pools) s =
      some ((.ok ⟨sel, dif, env.netdev⟩, dadp', true), s') := by
  rw [regLocked, hsel]
  dsimp only
  rw [Program.run_bind_of (run_regEnter_open hopen hnew)]
  cases e with
  | true => rfl
  | false =>
    obtain hreg : env.reg = none := hok.resolve_left Bool.false_ne_true
    rw [hreg]
    rfl

theorem run_regLocked_failed (hsel : dpaSetRingId dadp.numRxRings queueId = .ok sel)
    (hopen : dadp.refs ≠ dadp.numRxRings) {dadp' dadp'' : DpaAdapter} {s'' : PoolMemory} {err : RegError}
    (hnew : (dpaNewIf pools bufSize dadp).run (access pools) s = some ((some dif, dadp'), s'))
    (hreg : env.reg = some err)
    (hlocked : (dpaDestructorLocked pools dadp' dif.va).run (access pools) s' = some (dadp'', s'')) :
    (regLocked pools bufSize env queueId dadp false).run (access pools) s =
      some ((.error (.driver err.errno), dadp'', if dadp''.refs ≤ 0 then false else err.enabled), s'') := by
  rw [regLocked, hsel]
  dsimp only
  rw [Program.run_bind_of (run_regEnter_open hopen hnew), RegPoint.of, if_neg Bool.false_ne_true,
    hreg]
  dsimp only
  rw [destructorLocked, bind_assoc, Program.run_bind_of hlocked]
  rfl

theorem run_dpaRegIf_failed (hopen : r.dadp.refs ≠ r.dadp.numRxRings)
    (hnew : (dpaNewIf pools bufSize r.dadp).run (access pools) s = some ((some dif, dadp), s'))
    (hoff : r.enabled = false) {r' : Registry} {s'' : PoolMemory}
    (hrun : (Kernel.dpaRegIf pools bufSize false r).run (access pools) s = some (r', s'')) :
    ∃ dadp', (dpaDestructorLocked pools dadp dif.va).run (access pools) s' = some (dadp', s'') ∧
      r' = ⟨dadp', false, r.difs⟩ := by
  rw [Kernel.dpaRegIf, Program.run_bind_of (run_regEnter_open hopen hnew), hoff, RegPoint.of,
    if_neg Bool.false_ne_true] at hrun
  dsimp only at hrun
  rw [if_neg Bool.false_ne_true, Program.run_bind] at hrun
  obtain ⟨⟨dadp', s₁⟩, hlocked, hrest⟩ := Option.bind_eq_some_iff.1 hrun
  cases hrest
  exact ⟨dadp', hlocked, rfl⟩

end

section

variable {pools : PoolId → DpaObjPool} {bufSize n k queueId : ℕ} {d : CharDev} {t : Sessions}
  {dims : List (ℕ × ℕ)} {Inv : Host → Prop} {dev : Netdev} {env : Surroundings} {priv : FilePriv}
  {old : Option FilePriv}

theorem Mirrors.length_dims (hr : Roomy pools bufSize dims Inv) {h : Host} (hi : Inv h)
    (hd : Mirrors d h) : d.netdevs.length = dims.length := by
  rw [hd.length, ← hr.dims h hi, List.length_map]

theorem ringsOf_eq (hr : Roomy pools bufSize dims Inv) {h : Host} {r : Registry} (hi : Inv h)
    (hn : h.interfaces[n]? = some r) : Sessions.ringsOf dims n = r.dadp.numRxRings := by
  rw [Sessions.ringsOf, ← hr.dims h hi, List.getElem?_map, hn]
  rfl

theorem Serves.file (hs : Serves pools bufSize dims Inv d t) (k : ℕ) :
    t[k]? = d.files[k]?.map (Option.map FilePriv.session) := by
  rw [← hs.files, List.getElem?_map]

theorem Serves.setFile (hs : Serves pools bufSize dims Inv d t) {d' : CharDev} {h' : Host}
    (hi : Inv h') (hlinked : ∀ r ∈ h'.interfaces, r.Linked pools bufSize) (hd : Mirrors d' h')
    (new : Option FilePriv) (hfiles : d'.files = d.files.set k new)
    (hnew : ∀ priv, new = some priv → priv.netdev < dims.length ∧
      dpaSetRingId (Sessions.ringsOf dims priv.netdev) priv.ringId = .ok priv.toRingSel) :
    Serves pools bufSize dims Inv d' (t.set k (new.map FilePriv.session)) where
  host := ⟨h', hi, hlinked, hd⟩
  files := by
    rw [hfiles, List.map_set, hs.files]
  selected := by
    intro i priv hpriv
    rw [hfiles, List.getElem?_set] at hpriv
    by_cases hik : k = i
    · rw [if_pos hik] at hpriv
      split_ifs at hpriv
      exact hnew priv (Option.some.inj hpriv)
    · rw [if_neg hik] at hpriv
      exact hs.selected i priv hpriv

theorem dpaSetRingId_error {max : ℕ} (h : max ≤ queueId &&& ringIdMask) :
    dpaSetRingId max queueId = .error .inval := if_pos h

theorem dpaSetRingId_ringId {max : ℕ} {sel : RingSel} (h : dpaSetRingId max queueId = .ok sel) :
    sel.ringId = queueId ∧ queueId &&& ringIdMask < max := by
  by_cases hmax : max ≤ queueId &&& ringIdMask
  · rw [dpaSetRingId_error hmax] at h
    cases h
  · rw [dpaSetRingId, if_neg hmax] at h
    split_ifs at h
    · cases h
      exact ⟨rfl, not_le.1 hmax⟩
    · cases h
      exact ⟨rfl, not_le.1 hmax⟩

theorem dpaSetRingId_ok {max : ℕ} (h : queueId &&& ringIdMask < max) :
    ∃ sel, dpaSetRingId max queueId = .ok sel := by
  rw [dpaSetRingId, if_neg (not_le.2 h)]
  split_ifs
  · exact ⟨_, rfl⟩
  · exact ⟨_, rfl⟩

theorem Serves.retarget (hs : Serves pools bufSize dims Inv d t)
    (hk : d.files[k]? = some (some priv)) {sel : RingSel}
    (hsel : dpaSetRingId (Sessions.ringsOf dims priv.netdev) queueId = .ok sel) :
    Serves pools bufSize dims Inv (d.setFile k (some { priv with toRingSel := sel }))
      (t.set k (some ⟨priv.netdev, queueId⟩)) := by
  obtain ⟨h, hi, hlinked, hd⟩ := hs.host
  obtain ⟨hid, -⟩ := dpaSetRingId_ringId hsel
  have hdifs : ∀ n, ((d.setFile k (some { priv with toRingSel := sel })).difs n).Perm (d.difs n) :=
    fun n ↦ (List.perm_append_left_iff _).1 (difs_setFile hk (some { priv with toRingSel := sel }) n)
  have hd' : Mirrors (d.setFile k (some { priv with toRingSel := sel })) h := by
    refine ⟨hd.memory, hd.length, fun n dev hn ↦ ?_⟩
    obtain ⟨difs, hreg, hperm, hrefs⟩ := hd.netdev n dev hn
    exact ⟨difs, hreg, (hdifs n).trans hperm, hrefs⟩
  have hnew := hs.setFile hi hlinked hd' (some { priv with toRingSel := sel }) rfl
    fun priv' hpriv' ↦ by
      cases hpriv'
      refine ⟨(hs.selected k priv hk).1, ?_⟩
      dsimp only
      rw [hid]
      exact hsel
  rw [Option.map_some, FilePriv.session] at hnew
  dsimp only at hnew
  rwa [hid] at hnew

theorem modify_same (hn : d.netdevs[n]? = some dev) {f : Netdev → Netdev} (hf : f dev = dev) :
    d.netdevs.modify n f = d.netdevs := by
  refine List.ext_getElem? fun m ↦ ?_
  by_cases hnm : n = m
  · subst hnm
    rw [List.getElem?_modify_eq, hn]
    exact congrArg some hf
  · rw [List.getElem?_modify_ne _ _ hnm]

def Netdev.taken (dadp : DpaAdapter) (e : Bool) (refs : ℤ) (dev : Netdev) : Netdev :=
  { dev with
    dadp := dadp
    enabled := e
    netdevRefs := dev.netdevRefs + refs
    moduleRefs := dev.moduleRefs + refs }

section

variable {dadp : DpaAdapter} {e : Bool} {s : PoolMemory}
  (hfound : dpaAcquireNetdev env d = (.ok dev, d.hold env.netdev 1 1)) (hkmalloc : env.kmalloc = true)
  (hdeleting : dev.deleting = false)

include hfound hkmalloc hdeleting

theorem dpaRegIf_error {err : Errno}
    (hrun : (regLocked pools bufSize env queueId dev.dadp dev.enabled).run (access pools) d.memory =
      some ((.error err, dadp, e), s)) :
    dpaRegIf pools bufSize env queueId d none = some (.error err,
      ⟨s, d.netdevs.modify env.netdev (Netdev.taken dadp e 0), d.files⟩) := by
  rw [dpaRegIf, hfound]
  dsimp only
  rw [if_neg (not_not.2 hkmalloc), if_neg (ne_true_of_eq_false hdeleting), CharDev.perform]
  change ((Option.map _ ((regLocked pools bufSize env queueId dev.dadp dev.enabled).run (access pools)
    d.memory)).bind _) = _
  rw [hrun]
  refine congrArg (fun l ↦ some (Except.error err, (⟨s, l, d.files⟩ : CharDev))) ?_
  change ((d.netdevs.modify _ _).modify _ _).modify _ _ = _
  rw [List.modify_modify_eq, List.modify_modify_eq]
  refine congrArg (d.netdevs.modify env.netdev) (funext fun dev ↦ ?_)
  simp only [Function.comp_apply, Netdev.taken, add_neg_cancel_right, add_zero]

theorem dpaRegIf_ok
    (hrun : (regLocked pools bufSize env queueId dev.dadp dev.enabled).run (access pools) d.memory =
      some ((.ok priv, dadp, e), s)) :
    dpaRegIf pools bufSize env queueId d none = some (.ok priv,
      ⟨s, d.netdevs.modify env.netdev (Netdev.taken dadp e 1), d.files⟩) := by
  rw [dpaRegIf, hfound]
  dsimp only
  rw [if_neg (not_not.2 hkmalloc), if_neg (ne_true_of_eq_false hdeleting), CharDev.perform]
  change ((Option.map _ ((regLocked pools bufSize env queueId dev.dadp dev.enabled).run (access pools)
    d.memory)).bind _) = _
  rw [hrun]
  refine congrArg (fun l ↦ some (Except.ok priv, (⟨s, l, d.files⟩ : CharDev))) ?_
  change (d.netdevs.modify _ _).modify _ _ = _
  rw [List.modify_modify_eq]
  rfl

end

section

variable (hr : Roomy pools bufSize dims Inv) (hs : Serves pools bufSize dims Inv d t)
  (hk : d.files[k]? = some none) (hn : d.netdevs[env.netdev]? = some dev)
  (hfound : dpaAcquireNetdev env d = (.ok dev, d.hold env.netdev 1 1)) (hkmalloc : env.kmalloc = true)
  (hdeleting : dev.deleting = false) {sel : RingSel}
  (hsel : dpaSetRingId dev.dadp.numRxRings queueId = .ok sel)
  (hopen : dev.dadp.refs ≠ dev.dadp.numRxRings)

include hr hs hk hn hfound hkmalloc hdeleting hsel hopen

theorem Serves.admit (hok : dev.enabled = true ∨ env.reg = none) :
    ∃ priv d', dpaRegIf pools bufSize env queueId d none = some (.ok priv, d') ∧
      priv.netdev = env.netdev ∧
      Serves pools bufSize dims Inv (d'.setFile k (some priv))
        (t.set k (some ⟨env.netdev, queueId⟩)) := by
  obtain ⟨h, hi, hlinked, hd⟩ := hs.host
  obtain ⟨difs, hreg, hperm, hnetdevRefs, hmoduleRefs⟩ := hd.netdev env.netdev dev hn
  obtain ⟨dif, dadp, s, hnew⟩ := hr.room h _ _ hi hreg hopen
  have hexec : hostExec pools bufSize h (.register env.netdev true) =
      some ⟨s, h.interfaces.set env.netdev ⟨dadp, true, difs ++ [dif]⟩⟩ :=
    hostCall_of hreg (run_dpaRegIf_some hopen hnew)
  obtain ⟨h', hexec', hi'⟩ := hr.step h (.register env.netdev true) hi
  obtain rfl : _ = h' := Option.some.inj (hexec.symm.trans hexec')
  have hlinked' := hostExec_linked hlinked hexec
  rw [← hd.memory] at hnew
  have hrun := dpaRegIf_ok hfound hkmalloc hdeleting (run_regLocked_ok hsel hopen hnew hok)
  obtain ⟨hid, -⟩ := dpaSetRingId_ringId hsel
  refine ⟨_, _, hrun, rfl, ?_⟩
  have hdifs := fun m ↦ difs_setFile hk (some ⟨sel, dif, env.netdev⟩) m
  have hd' : Mirrors (CharDev.setFile ⟨s, d.netdevs.modify env.netdev (Netdev.taken dadp true 1),
      d.files⟩ k (some ⟨sel, dif, env.netdev⟩))
      ⟨s, h.interfaces.set env.netdev ⟨dadp, true, difs ++ [dif]⟩⟩ := by
    refine hd.step hn (f := Netdev.taken dadp true 1) rfl rfl rfl rfl ?_ (fun m hm ↦ ?_) ?_ ?_
    · have hself := hdifs env.netdev
      rw [share, share, if_pos rfl, List.nil_append] at hself
      exact hself.trans ((hperm.cons dif).trans (List.perm_append_singleton dif difs).symm)
    · have hother := hdifs m
      rw [share, share, if_neg (Ne.symm hm)] at hother
      exact hother
    · rw [List.length_append, Nat.cast_add, ← hnetdevRefs]
      rfl
    · rw [List.length_append, Nat.cast_add, ← hmoduleRefs]
      rfl
  obtain ⟨hlt, -⟩ := List.getElem?_eq_some_iff.1 hn
  have hsession := hs.setFile hi' hlinked' hd' (some ⟨sel, dif, env.netdev⟩) rfl
    fun priv hpriv ↦ by
      cases hpriv
      refine ⟨hd.length_dims hr hi ▸ hlt, ?_⟩
      dsimp only
      rw [ringsOf_eq hr hi hreg, hid]
      exact hsel
  rw [Option.map_some, FilePriv.session] at hsession
  dsimp only at hsession
  rwa [hid] at hsession

omit hk in
theorem Serves.refuse (hoff : dev.enabled = false) {err : RegError} (hreg : env.reg = some err) :
    ∃ d', dpaRegIf pools bufSize env queueId d none = some (.error (.driver err.errno), d') ∧
      d'.files = d.files ∧ Serves pools bufSize dims Inv d' t := by
  obtain ⟨h, hi, hlinked, hd⟩ := hs.host
  obtain ⟨difs, hregistry, hperm, hnetdevRefs, hmoduleRefs⟩ := hd.netdev env.netdev dev hn
  obtain ⟨dif, dadp, s, hnew⟩ := hr.room h _ _ hi hregistry hopen
  obtain ⟨h', hexec, hi'⟩ := hr.step h (.register env.netdev false) hi
  have hlinked' := hostExec_linked hlinked hexec
  obtain ⟨r', s', hrun, rfl⟩ := hostCall_some hregistry hexec
  obtain ⟨dadp', hlocked, rfl⟩ := run_dpaRegIf_failed hopen hnew hoff hrun
  have hready := hr.ready _ hi' _ (List.mem_of_getElem? (List.getElem?_set_self
    (List.getElem?_eq_some_iff.1 hregistry).1))
  have hzero : dadp'.refs ≤ 0 := by
    have hrefs : dadp'.refs = difs.length := hready.refs
    have hnil : ¬difs ≠ [] := fun hne ↦ Bool.false_ne_true (hready.enabled.2 hne)
    rw [hrefs, not_not.1 hnil]
    rfl
  rw [← hd.memory] at hnew
  have hfailed := run_regLocked_failed hsel hopen hnew hreg hlocked
  rw [if_pos hzero, ← hoff] at hfailed
  have hrun' := dpaRegIf_error hfound hkmalloc hdeleting hfailed
  refine ⟨_, hrun', rfl, ⟨⟨_, hi', hlinked', ?_⟩, hs.files, hs.selected⟩⟩
  refine hd.step hn (f := Netdev.taken dadp' dev.enabled 0) rfl rfl rfl ?_ hperm (fun m _ ↦ .refl _) ?_ ?_
  · rw [Netdev.taken, hoff]
  · rw [← hnetdevRefs]
    exact add_zero _
  · rw [← hmoduleRefs]
    exact add_zero _

end

/-- What a file that is not registered gets from `dpa_reg_if`. -/
theorem Serves.register (hr : Roomy pools bufSize dims Inv) (hs : Serves pools bufSize dims Inv d t)
    (hk : d.files[k]? = some none) :
    (∃ e d', Sessions.refusal dims env queueId t = some e ∧
      dpaRegIf pools bufSize env queueId d none = some (.error e, d') ∧ d'.files = d.files ∧
        Serves pools bufSize dims Inv d' t) ∨
    ∃ priv d', Sessions.refusal dims env queueId t = none ∧
      dpaRegIf pools bufSize env queueId d none = some (.ok priv, d') ∧ priv.netdev = env.netdev ∧
        Serves pools bufSize dims Inv (d'.setFile k (some priv)) (t.set k (some ⟨env.netdev, queueId⟩)) := by
  obtain ⟨h, hi, hlinked, hd⟩ := hs.host
  have hlen := hd.length_dims hr hi
  rw [Sessions.refusal]
  cases hmissing : Sessions.missing dims env with
  | some e =>
    refine .inl ⟨e, d, rfl, ?_, rfl, hs⟩
    rw [dpaRegIf, acquire_missing hlen hmissing]
  | none =>
    obtain ⟨dev, hn, hfound⟩ := acquire_found hlen hmissing
    dsimp only
    by_cases hkmalloc : env.kmalloc = true
    case neg =>
      rw [if_pos hkmalloc]
      refine .inl ⟨.nomem, d, rfl, ?_, rfl, hs⟩
      rw [dpaRegIf, hfound]
      dsimp only
      rw [if_pos hkmalloc, release_acquired]
    rw [if_neg (not_not.2 hkmalloc)]
    obtain ⟨difs, hreg, hperm, hnetdevRefs, hmoduleRefs⟩ := hd.netdev env.netdev dev hn
    have hready := hr.ready h hi _ (List.mem_of_getElem? hreg)
    have hrefs : dev.dadp.refs = difs.length := hready.refs
    have henabled : dev.enabled = true ↔ difs ≠ [] := hready.enabled
    have husers : t.users env.netdev = difs.length := by
      rw [← hs.files, ← length_difs]
      exact hperm.length_eq
    have hrings := ringsOf_eq hr hi hreg
    have hdeleting : dev.deleting = false := by
      rw [Netdev.deleting, Bool.and_eq_false_imp]
      intro hzero
      have hnil : difs = [] := by
        rw [← List.length_eq_zero_iff]
        have := of_decide_eq_true hzero
        omega
      rw [← Bool.not_eq_true, henabled]
      exact not_not.2 hnil
    have hsame : ∀ err : Errno, dpaRegIf pools bufSize env queueId d none = some (.error err,
        ⟨d.memory, d.netdevs.modify env.netdev (Netdev.taken dev.dadp dev.enabled 0), d.files⟩) →
        dpaRegIf pools bufSize env queueId d none = some (.error err, d) := by
      intro err herr
      rw [herr, modify_same hn]
      simp only [Netdev.taken, add_zero]
    by_cases hring : dev.dadp.numRxRings ≤ queueId &&& ringIdMask
    · rw [if_pos (hrings ▸ hring)]
      refine .inl ⟨.inval, d, rfl, hsame .inval ?_, rfl, hs⟩
      refine dpaRegIf_error hfound hkmalloc hdeleting ?_
      rw [regLocked, dpaSetRingId_error hring]
      rfl
    rw [if_neg (hrings ▸ hring), husers, hrings]
    obtain ⟨sel, hsel⟩ := dpaSetRingId_ok (not_le.1 hring)
    by_cases hfull : difs.length = dev.dadp.numRxRings
    · rw [if_pos hfull]
      refine .inl ⟨.busy, d, rfl, hsame .busy ?_, rfl, hs⟩
      refine dpaRegIf_error hfound hkmalloc hdeleting ?_
      have hbusy : dev.dadp.refs = dev.dadp.numRxRings := by rw [hrefs, hfull]
      rw [regLocked, hsel]
      dsimp only
      rw [Program.run_bind_of (run_regEnter_full hbusy)]
      rfl
    rw [if_neg hfull]
    have hopen : dev.dadp.refs ≠ dev.dadp.numRxRings := by
      rw [hrefs]
      exact Nat.cast_injective.ne hfull
    have hadmit := hs.admit hr hk hn hfound hkmalloc hdeleting hsel hopen
    by_cases hnil : difs.length = 0
    · rw [if_pos hnil]
      have hoff : dev.enabled = false := by
        rw [← Bool.not_eq_true, henabled]
        exact not_not.2 (List.length_eq_zero_iff.1 hnil)
      cases hcallback : env.reg with
      | none =>
        obtain ⟨priv, d', hrun, hnetdev, hs'⟩ := hadmit (.inr hcallback)
        exact .inr ⟨priv, d', rfl, hrun, hnetdev, hs'⟩
      | some err =>
        obtain ⟨d', hrun, hfiles, hs'⟩ :=
          hs.refuse hr hn hfound hkmalloc hdeleting hsel hopen hoff hcallback
        exact .inl ⟨_, d', rfl, hrun, hfiles, hs'⟩
    · rw [if_neg hnil]
      have hon : dev.enabled = true := henabled.2 (mt List.length_eq_zero_iff.2 hnil)
      obtain ⟨priv, d', hrun, hnetdev, hs'⟩ := hadmit (.inl hon)
      exact .inr ⟨priv, d', rfl, hrun, hnetdev, hs'⟩

theorem Serves.unregister (hr : Roomy pools bufSize dims Inv) (hs : Serves pools bufSize dims Inv d t)
    (hk : d.files[k]? = some (some priv)) : ∃ d', dpaDestructor pools priv d = some d' ∧
      Serves pools bufSize dims Inv (d'.setFile k none) (t.set k none) := by
  obtain ⟨h, hi, hlinked, hd⟩ := hs.host
  obtain ⟨hlt, -⟩ := hs.selected k priv hk
  rw [← hd.length_dims hr hi] at hlt
  have hn := List.getElem?_eq_getElem hlt
  generalize d.netdevs[priv.netdev] = dev at hn
  obtain ⟨difs, hreg, hperm, hnetdevRefs, hmoduleRefs⟩ := hd.netdev priv.netdev dev hn
  have hdifs := fun m ↦ difs_setFile hk none m
  have hself := hdifs priv.netdev
  rw [share, share, if_pos rfl, List.nil_append] at hself
  have hmem : priv.dif ∈ difs := (hself.trans hperm).mem_iff.1 List.mem_cons_self
  obtain ⟨j, hj⟩ := List.mem_iff_getElem?.1 hmem
  obtain ⟨hjlt, -⟩ := List.getElem?_eq_some_iff.1 hj
  obtain ⟨h', hexec, hi'⟩ := hr.step h (.unregister priv.netdev j) hi
  have hlinked' := hostExec_linked hlinked hexec
  obtain ⟨r', s', hrun, rfl⟩ := hostCall_some hreg hexec
  rw [Kernel.dpaDestructor, hj] at hrun
  dsimp only at hrun
  rw [Program.run_bind] at hrun
  obtain ⟨⟨dadp, s₁⟩, hlocked, hrest⟩ := Option.bind_eq_some_iff.1 hrun
  cases hrest
  have hrest : (difs.eraseIdx j).length + 1 = difs.length := by
    rw [List.length_eraseIdx_of_lt hjlt]
    omega
  have hrest' : (difs.length : ℤ) = (difs.eraseIdx j).length + 1 := by
    rw [← hrest]
    rfl
  refine ⟨⟨s₁, d.netdevs.modify priv.netdev (Netdev.taken dadp
    (if dadp.refs ≤ 0 then false else dev.enabled) (-1)), d.files⟩, ?_, ?_⟩
  · rw [dpaDestructor, hn]
    dsimp only
    rw [CharDev.perform, destructorLocked, hd.memory, Program.run_bind_of hlocked]
    refine congrArg (fun l ↦ some (⟨s₁, l, d.files⟩ : CharDev)) ?_
    change (d.netdevs.modify _ _).modify _ _ = _
    rw [List.modify_modify_eq]
    rfl
  · refine hs.setFile hi' hlinked' ?_ none rfl fun _ h ↦ by cases h
    refine hd.step hn (f := Netdev.taken dadp (if dadp.refs ≤ 0 then false else dev.enabled) (-1))
      rfl rfl rfl rfl ?_ (fun m hm ↦ ?_) ?_ ?_
    · exact (List.perm_cons _).1 ((hself.trans hperm).trans (perm_getElem? hj))
    · have hother := hdifs m
      rw [share, share, if_neg (Ne.symm hm)] at hother
      exact hother
    · change dev.netdevRefs + -1 = _
      rw [hnetdevRefs, hrest', add_neg_cancel_right]
    · change dev.moduleRefs + -1 = _
      rw [hmoduleRefs, hrest', add_neg_cancel_right]

variable {a : DpaMemAllocator} {c : Config} {para : IocPara} (hr : Roomy pools bufSize dims Inv)
  (hs : Serves pools bufSize dims Inv d t)

include hr hs

theorem Serves.length_netdevs : d.netdevs.length = dims.length := by
  obtain ⟨h, hi, -, hd⟩ := hs.host
  exact hd.length_dims hr hi

theorem Serves.netdev (hk : d.files[k]? = some (some priv)) :
    ∃ dev, d.netdevs[priv.netdev]? = some dev :=
  ⟨_, List.getElem?_eq_getElem ((hs.selected k priv hk).1.trans_eq (hs.length_netdevs hr).symm)⟩

theorem Serves.ringsOf (hn : d.netdevs[n]? = some dev) :
    Sessions.ringsOf dims n = dev.dadp.numRxRings := by
  obtain ⟨h, hi, -, hd⟩ := hs.host
  obtain ⟨difs, hreg, -⟩ := hd.netdev n dev hn
  exact ringsOf_eq hr hi hreg

theorem Serves.getInfo : (getInfo a c env para d).2 = d ∧ (getInfo a c env para d).1.outcome =
    ⟨if para.ifName = "" then none else Sessions.missing dims env, []⟩ := by
  rw [Ioctl.getInfo]
  dsimp only
  by_cases hname : para.ifName = ""
  · rw [if_pos hname, if_pos hname]
    exact ⟨rfl, rfl⟩
  · rw [if_neg hname, if_neg hname]
    have hlen := hs.length_netdevs hr
    cases hmissing : Sessions.missing dims env with
    | some e =>
      rw [acquire_missing hlen hmissing]
      exact ⟨rfl, rfl⟩
    | none =>
      obtain ⟨dev, -, hfound⟩ := acquire_found hlen hmissing
      rw [hfound]
      exact ⟨release_acquired, rfl⟩

omit hr hs in
theorem dpaIoctlGetRxStats_isSome (nic : NicStats) (device : StatsDevice) (rxStats : DpaRxStats) :
    (dpaIoctlGetRxStats nic device rxStats).isSome = (device.carrierOk &&
      (isSet rxStats.queueId dpaQueueFlagAll || perQueue rxStats.opCode &&
        decide ((rxStats.queueId &&& dpaRingIdMask).toNat < device.numRxRings))) := by
  obtain ⟨dropped, erroneous, heq⟩ := nic.getRxStats_eq
  rw [dpaIoctlGetRxStats, heq]
  cases hcarrier : device.carrierOk with
  | false =>
    rw [Driver.getRxStats, hcarrier]
    cases queueRange device _ with
    | none => rfl
    | some range => rfl
  | true =>
    rw [getRxStats_isSome hcarrier, queueRange, perQueue, Bool.true_and]
    dsimp only
    cases isSet rxStats.queueId dpaQueueFlagAll with
    | true => rfl
    | false =>
      cases isSet rxStats.opCode dpaRxStatsOpDrops with
      | true => rfl
      | false =>
        cases isSet rxStats.opCode dpaRxStatsOpErrors with
        | true => rfl
        | false =>
          generalize (rxStats.queueId &&& dpaRingIdMask).toNat = queueId
          by_cases hlt : queueId < device.numRxRings
          · simp [hlt]
          · simp [hlt, not_lt.1 hlt]

theorem Serves.getRxStats : (getRxStats a env para d).2 = d ∧ (getRxStats a env para d).1.outcome =
    ⟨if para.ifName = "" then none else (Sessions.missing dims env).or
      (if Sessions.countable dims env para.rxStats then none else some .inval), []⟩ := by
  rw [Ioctl.getRxStats]
  dsimp only
  by_cases hname : para.ifName = ""
  · rw [if_pos hname, if_pos hname]
    exact ⟨rfl, rfl⟩
  rw [if_neg hname, if_neg hname]
  have hlen := hs.length_netdevs hr
  cases hmissing : Sessions.missing dims env with
  | some e =>
    rw [acquire_missing hlen hmissing]
    exact ⟨rfl, rfl⟩
  | none =>
    obtain ⟨dev, hn, hfound⟩ := acquire_found hlen hmissing
    rw [hfound, Option.none_or, Sessions.countable, hs.ringsOf hr hn]
    dsimp only
    have hsome := dpaIoctlGetRxStats_isSome env.nic
      ⟨dev.dadp.numRxRings, env.totals, env.carrierOk, dev.enabled, env.now⟩
      { para.rxStats with packets := 0, bytes := 0, drops := 0, ts := 0 }
    dsimp only at hsome
    rw [← hsome, IocPara.describe]
    dsimp only
    cases dpaIoctlGetRxStats env.nic _ _ with
    | none => exact ⟨release_acquired, rfl⟩
    | some rxStats => exact ⟨release_acquired, rfl⟩

theorem Serves.rings (hle : ∀ x ∈ dims, x.1 ≤ 0x1000) (hk : d.files[k]? = some (some priv)) :
    d.rings priv = Sessions.rings dims priv.session := by
  obtain ⟨hlt, hsel⟩ := hs.selected k priv hk
  obtain ⟨dev, hn⟩ := hs.netdev hr hk
  rw [CharDev.rings, hn, Sessions.rings, FilePriv.session]
  dsimp only
  have hbound : Sessions.ringsOf dims priv.netdev ≤ 0x1000 := by
    rw [Sessions.ringsOf, List.getElem?_eq_getElem hlt]
    exact hle _ (List.getElem_mem hlt)
  have hrings := hs.ringsOf hr hn
  obtain ⟨-, hmask⟩ := dpaSetRingId_ringId hsel
  rw [dpaSetRingId, if_neg (not_le.2 hmask)] at hsel
  by_cases hall : priv.ringId &&& dpaRingFlagAll ≠ 0
  · rw [if_pos hall] at hsel ⊢
    have hpriv : priv.toDpaPriv = ⟨0, dpaRingFlagAll⟩ :=
      (congrArg RingSel.toDpaPriv (Except.ok.inj hsel)).symm
    rw [hpriv, pollMaxRx, if_neg (not_not.2 rfl), hrings, List.range_eq_range']
    rfl
  · rw [if_neg hall] at hsel ⊢
    have hpriv : priv.toDpaPriv = ⟨priv.ringId &&& ringIdMask, (priv.ringId &&& ringIdMask) + 1⟩ :=
      (congrArg RingSel.toDpaPriv (Except.ok.inj hsel)).symm
    rw [hpriv, pollMaxRx]
    dsimp only
    have hone : (if (priv.ringId &&& ringIdMask) + 1 ≠ dpaRingFlagAll then
        (priv.ringId &&& ringIdMask) + 1 else dev.pollAdapter.numRxRings) -
          (priv.ringId &&& ringIdMask) = 1 := by
      split_ifs with hflag
      · omega
      · change dev.dadp.numRxRings - _ = 1
        unfold dpaRingFlagAll at hflag
        omega
    rw [hone]
    rfl

theorem Serves.regIf (ha : a.pools = pools) (hc : c.bufSize = bufSize) (hk : d.files[k]? = some old) :
    ∃ r d', regIf a c env para k old d = some (r, d') ∧
      r.outcome = ⟨(Sessions.register dims env para.queueId k t (old.map FilePriv.session)).1, []⟩ ∧
        Serves pools bufSize dims Inv d'
          (Sessions.register dims env para.queueId k t (old.map FilePriv.session)).2 := by
  have hdone : ∀ priv d', dpaRegIf pools bufSize env para.queueId d old = some (.ok priv, d') →
      Ioctl.regIf a c env para k old d = some
        (⟨none, some (para.registered a priv.dif d'.netdevs[priv.netdev]?), []⟩,
          d'.setFile k (some priv)) := by
    intro priv d' hrun
    rw [Ioctl.regIf, ha, hc, hrun]
    rfl
  have hfailed : ∀ e d', dpaRegIf pools bufSize env para.queueId d old = some (.error e, d') →
      Ioctl.regIf a c env para k old d = some (⟨some e, some para, []⟩, d') := by
    intro e d' hrun
    rw [Ioctl.regIf, ha, hc, hrun]
    rfl
  cases old with
  | none =>
    rw [Option.map_none, Sessions.register]
    rcases hs.register hr hk with ⟨e, d', href, hrun, -, hs'⟩ | ⟨priv, d', href, hrun, hnetdev, hs'⟩
    · rw [href]
      exact ⟨_, d', hfailed e d' hrun, rfl, hs'⟩
    · rw [href]
      exact ⟨_, _, hdone priv d' hrun, rfl, hs'⟩
  | some priv =>
    obtain ⟨dev, hn⟩ := hs.netdev hr hk
    have hrings := hs.ringsOf hr hn
    rw [Option.map_some, Sessions.register, FilePriv.session]
    dsimp only
    by_cases hring : para.queueId &&& ringIdMask < Sessions.ringsOf dims priv.netdev
    · obtain ⟨sel, hsel⟩ := dpaSetRingId_ok hring
      have hrun : dpaRegIf pools bufSize env para.queueId d (some priv) =
          some (.ok { priv with toRingSel := sel }, d) := by
        rw [dpaRegIf, hn]
        dsimp only
        rw [← hrings, hsel]
        rfl
      rw [if_pos hring]
      exact ⟨_, _, hdone _ d hrun, rfl, hs.retarget hk hsel⟩
    · have hrun : dpaRegIf pools bufSize env para.queueId d (some priv) = some (.error .inval, d) := by
        rw [dpaRegIf, hn]
        dsimp only
        rw [← hrings, dpaSetRingId_error (not_lt.1 hring)]
        rfl
      rw [if_neg hring]
      exact ⟨_, d, hfailed _ d hrun, rfl, hs⟩

theorem Serves.unregIf (ha : a.pools = pools) (hk : d.files[k]? = some (some priv)) :
    ∃ r d', Ioctl.unregIf a para k (some priv) d = some (r, d') ∧ r.outcome = ⟨none, []⟩ ∧
      Serves pools bufSize dims Inv d' (t.set k none) := by
  obtain ⟨d', hrun, hs'⟩ := hs.unregister hr hk
  refine ⟨⟨none, some para, []⟩, _, ?_, rfl, hs'⟩
  rw [Ioctl.unregIf, ha, hrun]
  rfl

theorem Serves.dispatch (ha : a.pools = pools) (hc : c.bufSize = bufSize)
    (hle : ∀ x ∈ dims, x.1 ≤ 0x1000) (hk : d.files[k]? = some old) (env : Surroundings)
    (para : IocPara) (q : Request) : ∃ r d', dispatch a c env para k old d q = some (r, d') ∧
      r.outcome = (Sessions.call dims env para k t (old.map FilePriv.session) q).1 ∧
        Serves pools bufSize dims Inv d'
          (Sessions.call dims env para k t (old.map FilePriv.session) q).2 := by
  cases q with
  | getInfo =>
    have hd : (Ioctl.getInfo a c env para d).2 = d := (hs.getInfo hr).1
    exact ⟨(Ioctl.getInfo a c env para d).1, (Ioctl.getInfo a c env para d).2, rfl,
      (hs.getInfo hr).2, hd.symm ▸ hs⟩
  | regIf => exact hs.regIf hr ha hc hk
  | unregIf =>
    cases old with
    | none => exact ⟨_, d, rfl, rfl, hs⟩
    | some priv => exact hs.unregIf hr ha hk
  | rxSync =>
    cases old with
    | none => exact ⟨_, d, rfl, rfl, hs⟩
    | some priv => exact ⟨_, d, rfl, congrArg (Outcome.mk none) (hs.rings hr hle hk), hs⟩
  | getRxStats =>
    have hd : (Ioctl.getRxStats a env para d).2 = d := (hs.getRxStats hr).1
    exact ⟨(Ioctl.getRxStats a env para d).1, (Ioctl.getRxStats a env para d).2, rfl,
      (hs.getRxStats hr).2, hd.symm ▸ hs⟩
  | other => exact ⟨_, d, rfl, rfl, hs⟩

end

theorem copyBack_outcome (env : Surroundings) (arg : Option IocPara) (r : Reply) :
    (copyBack env arg r).outcome = if arg.isSome ∧ ¬env.copyToUser then
      { r.outcome with error := some .fault } else r.outcome := by
  cases arg with
  | none => rfl
  | some para =>
    rw [copyBack]
    cases env.copyToUser with
    | true => rfl
    | false => rfl

theorem implements {a : DpaMemAllocator} {c : Config} {dims : List (ℕ × ℕ)} {Inv : Host → Prop}
    (hr : Roomy a.pools c.bufSize dims Inv) (hle : ∀ x ∈ dims, x.1 ≤ 0x1000) :
    Implements (fileExec a c) (Sessions.answer dims) Reply.outcome
      (Serves a.pools c.bufSize dims Inv) := by
  intro d t e hs
  obtain ⟨k, op⟩ := e
  have ht := hs.file k
  rw [fileExec, Sessions.answer]
  dsimp only
  rw [ht]
  cases hk : d.files[k]? with
  | none => exact ⟨_, d, rfl, rfl, hs⟩
  | some old =>
    rw [hk, Option.map_some] at ht
    cases op with
    | ioctl env cmd arg =>
      dsimp only
      rw [dpaIoctl]
      cases refused env cmd arg with
      | some e => exact ⟨_, d, rfl, rfl, hs⟩
      | none =>
        obtain ⟨r, d', hrun, hout, hs'⟩ :=
          hs.dispatch hr rfl rfl hle hk env (arg.getD zeroPara) (request cmd)
        dsimp only
        rw [hrun]
        refine ⟨copyBack env arg r, d', rfl, ?_, hs'⟩
        rw [copyBack_outcome, hout]
        rfl
    | close =>
      cases old with
      | none =>
        obtain ⟨hlt, hget⟩ := List.getElem?_eq_some_iff.1 ht
        have hset : t.set k none = t := (congrArg (t.set k) hget.symm).trans (List.set_getElem_self hlt)
        refine ⟨_, d, rfl, rfl, ?_⟩
        dsimp only
        rwa [hset]
      | some priv =>
        obtain ⟨d', hrun, hs'⟩ := hs.unregister hr hk
        dsimp only
        rw [dpaRelease, hrun]
        exact ⟨_, _, rfl, rfl, hs'⟩

end Dpa.Kernel.Ioctl
