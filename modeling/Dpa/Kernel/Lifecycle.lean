import Dpa.Kernel.Host

namespace Dpa.Kernel

open Function Library MachineWord PoolMemory

inductive Lookup
  | noDevice
  | notCapable
  | noDriver
  | moduleGone
  | found
  deriving DecidableEq

/-- What the driver's callback answers when it is to enable the interface. One that fails may leave the
enable flag set. -/
inductive RegResult
  | ok
  | failed (enabled : Bool)

/-- Where a file descriptor is; a descriptor is used by one thread. None of these is a place where
`reg_lock` is held. -/
inductive Fd
  /-- no `private_data`, and nothing in progress -/
  | idle
  /-- in the loop of `dpa_reg_if`, that many rounds before it gives up -/
  | waiting (rounds : ℕ)
  /-- in `dpa_reg_if`, about to set `private_data` -/
  | entered (dif : DpaIf)
  /-- `private_data` is set, and nothing in progress -/
  | registered (dif : DpaIf)
  /-- asleep in `dpa_destructor_locked`, called by `dpa_reg_if` -/
  | failing (dif : DpaIf)
  /-- asleep in `dpa_destructor_locked`, called by `dpa_destructor` -/
  | closing (dif : DpaIf)
  /-- about to call `dpa_release_netdev` -/
  | leaving

structure Lifecycle where
  dadp : DpaAdapter
  enabled : Bool
  memory : PoolMemory
  /-- the references to the `net_device` that are held, and those to the driver's module -/
  netdevRefs : ℤ
  moduleRefs : ℤ
  fds : List Fd

inductive FdOp
  /-- `DIOCREGIF`, up to the loop -/
  | acquire (lookup : Lookup) (kmalloc : Bool)
  /-- a round of the loop, and what follows it under `reg_lock` -/
  | enter (ringId : ℕ) (reg : RegResult)
  | publish
  /-- `DIOCUNREGIF` or `close` -/
  | destroy
  | wake
  | release

def Lifecycle.deleting (s : Lifecycle) : Bool := s.dadp.refs = 0 && s.enabled

def ringIdMask : ℕ := 0xfff

def ringIdOk (dadp : DpaAdapter) (ringId : ℕ) : Bool := ringId &&& ringIdMask < dadp.numRxRings

def dpaAcquireNetdev (lookup : Lookup) (s : Lifecycle) : Bool × Lifecycle :=
  if lookup = .noDevice then (false, s)
  else
    let s := { s with netdevRefs := s.netdevRefs + 1 }
    if lookup = .found then (true, { s with moduleRefs := s.moduleRefs + 1 })
    else (false, { s with netdevRefs := s.netdevRefs - 1 })

def dpaReleaseNetdev (s : Lifecycle) : Lifecycle :=
  { s with netdevRefs := s.netdevRefs - 1, moduleRefs := s.moduleRefs - 1 }

section

variable (pools : PoolId → DpaObjPool) (bufSize : ℕ)

def Lifecycle.perform {α : Type} (program : PoolProgram α) (s : Lifecycle) : Option (α × Lifecycle) :=
  (program.run (access pools) s.memory).map fun a ↦ (a.1, { s with memory := a.2 })

/-- `dpa_destructor_locked` up to its sleep, or to its end where it does not sleep. -/
def dropRef (asleep : DpaIf → Fd) (dif : DpaIf) (s : Lifecycle) : Option (Fd × Lifecycle) :=
  let s := { s with dadp := s.dadp.dropRef }
  if s.dadp.refs ≤ 0 then some (asleep dif, s)
  else do
    let (_, s) ← s.perform pools (dpaIfFree pools dif.va)
    some (.leaving, s)

/-- `dpa_destructor_locked` after its sleep. All callbacks clear the flag when they are to disable
the interface. -/
def afterSleep (dif : DpaIf) (s : Lifecycle) : Option (Fd × Lifecycle) := do
  let s := { s with enabled := false }
  let (_, s) ← s.perform pools (destroyLast pools s.dadp dif.va)
  some (.leaving, s)

def regLocked (ringId : ℕ) (reg : RegResult) (s : Lifecycle) : Option (Fd × Lifecycle) :=
  if ¬ringIdOk s.dadp ringId then some (.leaving, s)
  else do
    let ((point, dadp), s) ← s.perform pools (regEnter pools bufSize s.enabled s.dadp)
    let s := { s with dadp := dadp }
    match point with
    | .full | .noObjects => some (.leaving, s)
    | .joins dif => some (.entered dif, s)
    | .enables dif =>
      match reg with
      | .ok => some (.entered dif, { s with enabled := true })
      | .failed enabled => dropRef pools .failing dif { s with enabled := enabled }

/-- A step of a thread, where it can take it. A descriptor that is registered ends its `DIOCREGIF` in
`dpa_set_ring_id`. -/
def fdStep : Fd → FdOp → Lifecycle → Option (Fd × Lifecycle)
  | .idle, .acquire lookup kmalloc, s =>
    let (ok, s) := dpaAcquireNetdev lookup s
    if ¬ok then some (.idle, s)
    else if kmalloc then some (.waiting 10, s)
    else some (.idle, dpaReleaseNetdev s)
  | .waiting rounds, .enter ringId reg, s =>
    if s.deleting then some (if rounds ≤ 1 then .leaving else .waiting (rounds - 1), s)
    else regLocked pools bufSize ringId reg s
  | .entered dif, .publish, s => some (.registered dif, s)
  | .registered dif, .destroy, s => dropRef pools .closing dif s
  | .failing dif, .wake, s => afterSleep pools dif s
  | .closing dif, .wake, s => afterSleep pools dif s
  | .leaving, .release, s => some (.idle, dpaReleaseNetdev s)
  | fd, _, s => some (fd, s)

def lifeExec (s : Lifecycle) (c : ℕ × FdOp) : Option Lifecycle :=
  match s.fds[c.1]? with
  | none => some s
  | some fd => (fdStep pools bufSize fd c.2 s).map fun a ↦ { a.2 with fds := s.fds.set c.1 a.1 }

end

def NoneFailing (s : Lifecycle) : Prop := ∀ dif, .failing dif ∉ s.fds

/-- A registration that is about to set the rings up reaches every ring whose pointer is not null, and
none that has failed is still asleep. -/
def Alone (pools : PoolId → DpaObjPool) (s : Lifecycle) : ℕ × FdOp → Prop
  | (k, .enter ringId _) => ∀ rounds, s.fds[k]? = some (.waiting rounds) → s.deleting = false →
      ringIdOk s.dadp ringId = true → s.dadp.refs ≠ s.dadp.numRxRings →
      NoneLeftOver pools s.memory s.dadp ∧
      (¬0 < s.dadp.refs → 0 < (s.memory.words .ifPool).objFree →
        ifLen s.dadp.numRxRings ≤ (pools .ifPool).objSize → NoneFailing s)
  | _ => True

/-- No registration and no destructor is in progress. -/
def Quiet (s : Lifecycle) : Prop := ∀ fd ∈ s.fds, fd = .idle ∨ ∃ dif, fd = .registered dif

def registered (fds : List Fd) : List DpaIf :=
  fds.flatMap fun
    | .registered dif => [dif]
    | _ => []

/-- What holds between the calls, `R` being what others hold of the pools. -/
structure Balanced (pools : PoolId → DpaObjPool) (bufSize : ℕ) (m : PoolMemory)
    (F : PoolId → Finset ℕ) (R : PoolId → List ℕ) (s : Lifecycle) : Prop where
  refs : s.dadp.refs = (registered s.fds).length
  enabled : s.enabled = true ↔ 0 < s.dadp.refs
  rings : 0 < s.dadp.refs → ∀ j < s.dadp.numRxRings,
    Filled pools bufSize s.dadp.numRxDescs (s.dadp.rxRings j)
  netdevRefs : s.netdevRefs = s.dadp.refs
  moduleRefs : s.moduleRefs = s.dadp.refs
  owned : Owned m F s.memory fun p ↦
    holding pools ⟨s.dadp, s.enabled, registered s.fds⟩ p ++ R p

/-- An interface and the pools between two calls, `R` being what others hold of the pools. -/
structure Kept (pools : PoolId → DpaObjPool) (bufSize : ℕ) (m : PoolMemory)
    (F : PoolId → Finset ℕ) (R : PoolId → List ℕ) (r : Registry) (s : PoolMemory) : Prop where
  ready : r.Ready pools bufSize
  owned : Owned m F s fun p ↦ holding pools r p ++ R p
  unlocked : s.locked = false

section

variable {pools : PoolId → DpaObjPool} {bufSize : ℕ} (hp : SoundPools pools bufSize)
  {m : PoolMemory} {F : PoolId → Finset ℕ} (hm : Represented pools m F) {R : PoolId → List ℕ}
  {r : Registry} {dadp : DpaAdapter} {dif : DpaIf} {difs : List DpaIf} {e : Bool} {s s' : PoolMemory}

theorem Kept.perm (h : Kept pools bufSize m F R ⟨dadp, e, difs⟩ s) {difs' : List DpaIf}
    (hperm : difs.Perm difs') : Kept pools bufSize m F R ⟨dadp, e, difs'⟩ s := by
  have hnil : difs = [] ↔ difs' = [] := by
    constructor
    · rintro rfl
      exact List.nil_perm.1 hperm
    · rintro rfl
      exact List.perm_nil.1 hperm
  have hready := h.ready
  refine ⟨⟨hready.refs.trans ?_, hready.enabled.trans (not_congr hnil), hready.pointer,
    fun hne ↦ hready.filled fun h ↦ hne (hnil.1 h), fun d hd ↦ hready.difs d (hperm.mem_iff.2 hd)⟩,
    h.owned.perm fun p ↦ List.Perm.append_right _ ?_, h.unlocked⟩
  · dsimp only
    rw [hperm.length_eq]
  · rw [holding, holding]
    dsimp only
    refine (hperm.flatMap_right _).append (.of_eq ?_)
    by_cases hdifs : difs = []
    · rw [if_pos hdifs, if_pos (hnil.1 hdifs)]
    · rw [if_neg hdifs, if_neg fun h ↦ hdifs (hnil.2 h)]

theorem Kept.of_leaves {r' : Registry} (h : Leaves pools bufSize m F R r r' s) :
    Kept pools bufSize m F R r' s :=
  ⟨h.1, h.2.2.2.1, h.2.2.2.2⟩

include hp hm

theorem Kept.newIf_runs (h : Kept pools bufSize m F R r s) :
    ∃ dif dadp s', (dpaNewIf pools bufSize r.dadp).run (access pools) s = some ((dif, dadp), s') := by
  rcases run_dpaNewIf hp (h.owned.represented hm) h.unlocked h.ready.pointer with
    ⟨dadp, s', hrun⟩ | ⟨-, x, -, hrun⟩ | ⟨-, x, rx, hrun, -⟩
  · exact ⟨_, _, _, hrun⟩
  · exact ⟨_, _, _, hrun⟩
  · exact ⟨_, _, _, hrun⟩

theorem Kept.newIf_some (h : Kept pools bufSize m F R r s) (hopen : r.dadp.refs ≠ r.dadp.numRxRings)
    (hnew : (dpaNewIf pools bufSize r.dadp).run (access pools) s = some ((some dif, dadp), s')) :
    Kept pools bufSize m F R ⟨dadp, true, r.difs ++ [dif]⟩ s' :=
  .of_leaves (leaves_of_registered hp hm h.ready h.owned h.unlocked hopen hnew)

theorem Kept.newIf_none (h : Kept pools bufSize m F R r s) (hopen : r.dadp.refs ≠ r.dadp.numRxRings)
    (hclean : NoneLeftOver pools s r.dadp)
    (hnew : (dpaNewIf pools bufSize r.dadp).run (access pools) s = some ((none, dadp), s')) :
    Kept pools bufSize m F R ⟨dadp, r.enabled, r.difs⟩ s' := by
  obtain ⟨r', s₁, hrun, hleaves⟩ := dpaRegIf_step hp hm h.ready h.owned h.unlocked hclean true
  rw [dpaRegIf, Program.run_bind_of (run_regEnter_open hopen hnew)] at hrun
  cases hrun
  exact .of_leaves hleaves

theorem Kept.last (h : Kept pools bufSize m F R ⟨{ dadp with refs := 1 }, true, [dif]⟩ s)
    (hrefs : dadp.refs = 0) :
    ∃ s', (destroyLast pools dadp dif.va).run (access pools) s = some ((), s') ∧
      Kept pools bufSize m F R ⟨dadp, false, []⟩ s' := by
  cases dadp
  cases hrefs
  obtain ⟨r', s', hrun, hleaves⟩ := dpaDestructor_step hp hm h.ready h.owned h.unlocked 0
  have hle : (1 : ℤ) - 1 ≤ 0 := le_rfl
  rw [dpaDestructor, List.getElem?_cons_zero] at hrun
  dsimp only at hrun
  rw [dpaDestructorLocked, DpaAdapter.dropRef, if_pos hle, Program.run_bind] at hrun
  obtain ⟨⟨dadp', s₂⟩, hlocked, hend⟩ := Option.bind_eq_some_iff.1 hrun
  rw [Program.run_bind] at hlocked
  obtain ⟨⟨⟨⟩, s₁⟩, hall, hret⟩ := Option.bind_eq_some_iff.1 hlocked
  cases hret
  cases hend
  refine ⟨_, hall, ?_⟩
  have hkept := Kept.of_leaves hleaves
  rw [if_pos hle] at hkept
  exact hkept

theorem Kept.more (h : Kept pools bufSize m F R ⟨dadp, e, dif :: difs⟩ s) (hrefs : 1 < dadp.refs) :
    ∃ s', (dpaIfFree pools dif.va).run (access pools) s = some ((), s') ∧
      Kept pools bufSize m F R ⟨{ dadp with refs := dadp.refs - 1 }, e, difs⟩ s' := by
  obtain ⟨r', s', hrun, hleaves⟩ := dpaDestructor_step hp hm h.ready h.owned h.unlocked 0
  have hpos : ¬dadp.refs - 1 ≤ 0 := by omega
  rw [dpaDestructor, List.getElem?_cons_zero] at hrun
  dsimp only at hrun
  rw [dpaDestructorLocked, DpaAdapter.dropRef, if_neg hpos, Program.run_bind] at hrun
  obtain ⟨⟨dadp', s₂⟩, hlocked, hend⟩ := Option.bind_eq_some_iff.1 hrun
  rw [Program.run_bind] at hlocked
  obtain ⟨⟨⟨⟩, s₁⟩, hif, hret⟩ := Option.bind_eq_some_iff.1 hlocked
  cases hret
  cases hend
  refine ⟨_, hif, ?_⟩
  have hkept := Kept.of_leaves hleaves
  rw [if_neg hpos] at hkept
  exact hkept

end

def Fd.difs : Fd → List DpaIf
  | .entered dif => [dif]
  | .registered dif => [dif]
  | .failing dif => [dif]
  | .closing dif => [dif]
  | _ => []

def Fd.refs : Fd → ℕ
  | .idle => 0
  | _ => 1

def Fd.asleep : Fd → Bool
  | .failing _ => true
  | .closing _ => true
  | _ => false

structure RefsHeld (s : Lifecycle) : Prop where
  netdev : s.netdevRefs = (s.fds.map Fd.refs).sum
  module : s.moduleRefs = (s.fds.map Fd.refs).sum

inductive Phase (pools : PoolId → DpaObjPool) (bufSize : ℕ) (m : PoolMemory)
    (F : PoolId → Finset ℕ) (R : PoolId → List ℕ) (s : Lifecycle) : Prop
  | awake (hup : ∀ fd ∈ s.fds, fd.asleep = false) (difs : List DpaIf)
      (hperm : difs.Perm (s.fds.flatMap Fd.difs))
      (hkept : Kept pools bufSize m F R ⟨s.dadp, s.enabled, difs⟩ s.memory)
  | asleep (hrefs : s.dadp.refs = 0) (dif : DpaIf) (hdifs : s.fds.flatMap Fd.difs = [dif])
      (hdown : .failing dif ∈ s.fds ∨ .closing dif ∈ s.fds ∧ s.enabled = true)
      (hkept : Kept pools bufSize m F R ⟨{ s.dadp with refs := 1 }, true, [dif]⟩ s.memory)

section

variable {pools : PoolId → DpaObjPool} {bufSize : ℕ} {s s' : Lifecycle} {k : ℕ} {fd fd' : Fd}
  {op : FdOp} {ringId : ℕ} {reg : RegResult} {dif : DpaIf}

theorem perform_eq {α : Type} {program : PoolProgram α} {a : α × Lifecycle}
    (h : s.perform pools program = some a) :
    a.2.fds = s.fds ∧ a.2.netdevRefs = s.netdevRefs ∧ a.2.moduleRefs = s.moduleRefs := by
  obtain ⟨x, -, rfl⟩ := Option.map_eq_some_iff.1 h
  exact ⟨rfl, rfl, rfl⟩

def KeepsRefs (fd : Fd) (s : Lifecycle) (a : Fd × Lifecycle) : Prop :=
  a.2.fds = s.fds ∧ a.2.netdevRefs - a.1.refs = s.netdevRefs - fd.refs ∧
    a.2.moduleRefs - a.1.refs = s.moduleRefs - fd.refs

theorem dropRef_refs {asleep : DpaIf → Fd} (hasleep : (asleep dif).refs = 1) (hfd : fd.refs = 1)
    {a : Fd × Lifecycle} (h : dropRef pools asleep dif s = some a) : KeepsRefs fd s a := by
  rw [dropRef] at h
  dsimp only at h
  split_ifs at h
  · cases h
    exact ⟨rfl, by rw [hasleep, hfd], by rw [hasleep, hfd]⟩
  · obtain ⟨⟨⟨⟩, s₁⟩, hperform, hret⟩ := Option.bind_eq_some_iff.1 h
    cases hret
    obtain ⟨hfds, hnet, hmod⟩ := perform_eq hperform
    exact ⟨hfds, by rw [hnet, hfd]; rfl, by rw [hmod, hfd]; rfl⟩

theorem afterSleep_refs (hfd : fd.refs = 1) {a : Fd × Lifecycle}
    (h : afterSleep pools dif s = some a) : KeepsRefs fd s a := by
  obtain ⟨⟨⟨⟩, s₁⟩, hall, hret⟩ := Option.bind_eq_some_iff.1 h
  cases hret
  obtain ⟨hfds, hnet, hmod⟩ := perform_eq hall
  exact ⟨hfds, by rw [hnet, hfd]; rfl, by rw [hmod, hfd]; rfl⟩

theorem regLocked_refs (hfd : fd.refs = 1) {a : Fd × Lifecycle}
    (h : regLocked pools bufSize ringId reg s = some a) : KeepsRefs fd s a := by
  rw [regLocked] at h
  by_cases hring : ¬ringIdOk s.dadp ringId = true
  · rw [if_pos hring] at h
    cases h
    exact ⟨rfl, by rw [hfd]; rfl, by rw [hfd]; rfl⟩
  rw [if_neg hring] at h
  obtain ⟨⟨⟨point, dadp⟩, s₁⟩, hperform, h⟩ := Option.bind_eq_some_iff.1 h
  obtain ⟨hfds, hnet, hmod⟩ := perform_eq hperform
  dsimp only at hfds hnet hmod
  have hhere : ∀ fd' : Fd, fd'.refs = 1 → ∀ dadp e,
      KeepsRefs fd s (fd', { s₁ with dadp := dadp, enabled := e }) := fun fd' hfd' dadp e ↦
    ⟨hfds, by rw [← hnet, hfd, hfd'], by rw [← hmod, hfd, hfd']⟩
  cases point with
  | full =>
    cases h
    exact hhere .leaving rfl _ _
  | noObjects =>
    cases h
    exact hhere .leaving rfl _ _
  | joins dif =>
    cases h
    exact hhere (.entered dif) rfl _ _
  | enables dif =>
    cases reg with
    | ok =>
      cases h
      exact hhere (.entered dif) rfl _ _
    | failed enabled =>
      obtain ⟨hfds', hnet', hmod'⟩ := dropRef_refs rfl hfd h
      exact ⟨hfds'.trans hfds, by rw [hnet', ← hnet], by rw [hmod', ← hmod]⟩

theorem dpaAcquireNetdev_eq (lookup : Lookup) (s : Lifecycle) : dpaAcquireNetdev lookup s =
    if lookup = .found then
      (true, { s with netdevRefs := s.netdevRefs + 1, moduleRefs := s.moduleRefs + 1 })
    else (false, s) := by
  cases lookup <;> simp [dpaAcquireNetdev]

theorem dpaReleaseNetdev_found (s : Lifecycle) :
    dpaReleaseNetdev { s with netdevRefs := s.netdevRefs + 1, moduleRefs := s.moduleRefs + 1 } = s := by
  simp [dpaReleaseNetdev]

theorem fdStep_refs {a : Fd × Lifecycle} (h : fdStep pools bufSize fd op s = some a) :
    KeepsRefs fd s a := by
  have hstay : some (fd, s) = some a → KeepsRefs fd s a := fun h ↦ by
    cases h
    exact ⟨rfl, rfl, rfl⟩
  cases fd with
  | idle =>
    cases op with
    | acquire lookup kmalloc =>
      rw [fdStep, dpaAcquireNetdev_eq] at h
      by_cases hfound : lookup = .found
      · rw [if_pos hfound] at h
        cases kmalloc with
        | true =>
          cases h
          exact ⟨rfl, by simp [Fd.refs], by simp [Fd.refs]⟩
        | false =>
          cases h
          rw [dpaReleaseNetdev_found]
          exact ⟨rfl, rfl, rfl⟩
      · rw [if_neg hfound] at h
        cases h
        exact ⟨rfl, rfl, rfl⟩
    | _ => exact hstay h
  | waiting rounds =>
    cases op with
    | enter ringId reg =>
      rw [fdStep] at h
      split_ifs at h
      · cases h
        exact ⟨rfl, rfl, rfl⟩
      · cases h
        exact ⟨rfl, rfl, rfl⟩
      · exact regLocked_refs rfl h
    | _ => exact hstay h
  | entered dif =>
    cases op with
    | publish =>
      cases h
      exact ⟨rfl, rfl, rfl⟩
    | _ => exact hstay h
  | registered dif =>
    cases op with
    | destroy => exact dropRef_refs rfl rfl h
    | _ => exact hstay h
  | failing dif =>
    cases op with
    | wake => exact afterSleep_refs rfl h
    | _ => exact hstay h
  | closing dif =>
    cases op with
    | wake => exact afterSleep_refs rfl h
    | _ => exact hstay h
  | leaving =>
    cases op with
    | release =>
      cases h
      simp [KeepsRefs, Fd.refs, dpaReleaseNetdev]
    | _ => exact hstay h

theorem RefsHeld.lifeExec (h : RefsHeld s) {c : ℕ × FdOp}
    (hexec : lifeExec pools bufSize s c = some s') : RefsHeld s' := by
  rw [Kernel.lifeExec] at hexec
  cases hk : s.fds[c.1]? with
  | none =>
    rw [hk] at hexec
    cases hexec
    exact h
  | some fd =>
    rw [hk] at hexec
    obtain ⟨⟨fd', s₁⟩, hstep, rfl⟩ := Option.map_eq_some_iff.1 hexec
    obtain ⟨-, hnet, hmod⟩ := fdStep_refs hstep
    have hsum := ((perm_getElem? hk).map Fd.refs).sum_eq
    have hsum' := ((perm_set hk fd').map Fd.refs).sum_eq
    rw [List.map_cons, List.sum_cons] at hsum hsum'
    have hnet₀ := h.netdev
    have hmod₀ := h.module
    dsimp only at hnet hmod
    constructor
    · dsimp only
      rw [hsum']
      omega
    · dsimp only
      rw [hsum']
      omega

end

section

variable {pools : PoolId → DpaObjPool} {bufSize : ℕ} {m : PoolMemory} {F : PoolId → Finset ℕ}
  {R : PoolId → List ℕ} {s s' : Lifecycle} {k : ℕ} {fd fd' : Fd} {dif : DpaIf}

theorem difs_ne_nil (h : fd.asleep = true) : fd.difs ≠ [] := by
  cases fd with
  | failing dif => exact List.cons_ne_nil _ _
  | closing dif => exact List.cons_ne_nil _ _
  | _ => cases h

/-- Where a descriptor of the list has one object and there is only one, the others have none. -/
theorem rest_difs (hk : s.fds[k]? = some fd) (hfd : fd.difs = [dif]) {d : DpaIf}
    (hdifs : s.fds.flatMap Fd.difs = [d]) : dif = d ∧ (s.fds.eraseIdx k).flatMap Fd.difs = [] := by
  have hperm := (perm_getElem? hk).flatMap_right Fd.difs
  rw [hdifs, List.flatMap_cons, hfd, List.singleton_append] at hperm
  obtain ⟨rfl, hnil⟩ := List.cons.inj (List.singleton_perm.1 hperm)
  exact ⟨rfl, hnil.symm⟩

/-- A step of a thread that is awake, and that holds as much as before. -/
theorem awake_set {fds : List Fd} (hup : ∀ x ∈ fds, x.asleep = false) (hfd : fd.asleep = false) :
    ∀ x ∈ fds.set k fd, x.asleep = false := by
  intro x hx
  rcases List.mem_or_eq_of_mem_set hx with hx | rfl
  · exact hup x hx
  · exact hfd

theorem Phase.move (h : Phase pools bufSize m F R s) (hk : s.fds[k]? = some fd) (fd' : Fd)
    (hup : fd.asleep = false) (hup' : fd'.asleep = false) (hdifs : fd'.difs = fd.difs)
    (hdadp : s'.dadp = s.dadp) (henabled : s'.enabled = s.enabled) (hmemory : s'.memory = s.memory)
    (hfds : s'.fds = s.fds.set k fd') : Phase pools bufSize m F R s' := by
  have hperm := (perm_set hk fd').flatMap_right Fd.difs
  rw [List.flatMap_cons, hdifs, ← List.flatMap_cons] at hperm
  have hsame := hperm.trans ((perm_getElem? hk).flatMap_right Fd.difs).symm
  cases h with
  | awake hall difs hdifs' hkept =>
    refine .awake (hfds ▸ awake_set hall hup') difs ?_ ?_
    · rw [hfds]
      exact hdifs'.trans hsame.symm
    · rw [hdadp, henabled, hmemory]
      exact hkept
  | asleep hrefs dif hdif hdown hkept =>
    have hstill : ∀ x ∈ s.fds, x.asleep = true → x ∈ s.fds.set k fd' := fun x hx hasleep ↦ by
      rcases List.mem_cons.1 ((perm_getElem? hk).mem_iff.1 hx) with rfl | hrest
      · rw [hup] at hasleep
        cases hasleep
      · exact (perm_set hk fd').mem_iff.2 (List.mem_cons_of_mem _ hrest)
    refine .asleep (by rw [hdadp, hrefs]) dif ?_ ?_ ?_
    · rw [hfds]
      rw [hdif] at hsame
      exact List.perm_singleton.1 hsame
    · rw [hfds, henabled]
      exact hdown.imp (fun h ↦ hstill _ h rfl) fun h ↦ ⟨hstill _ h.1 rfl, h.2⟩
    · rw [hdadp, hmemory]
      exact hkept

theorem Phase.stay (h : Phase pools bufSize m F R s) (hk : s.fds[k]? = some fd) :
    Phase pools bufSize m F R { s with fds := s.fds.set k fd } := by
  obtain ⟨hlt, rfl⟩ := List.getElem?_eq_some_iff.1 hk
  rw [List.set_getElem_self]
  exact h

variable (hp : SoundPools pools bufSize) (hm : Represented pools m F)

include hp hm

/-- The end of a registration that is published, up to the sleep if it is the last. -/
theorem Phase.destroy (h : Phase pools bufSize m F R s) (hk : s.fds[k]? = some (.registered dif)) :
    ∃ a, dropRef pools .closing dif s = some a ∧
      Phase pools bufSize m F R { a.2 with fds := s.fds.set k a.1 } := by
  have hperm := (perm_getElem? hk).flatMap_right Fd.difs
  rw [List.flatMap_cons, show (Fd.registered dif).difs = [dif] from rfl,
    List.singleton_append] at hperm
  cases h with
  | awake hup difs hdifs hkept =>
    have hkept' := hkept.perm (hdifs.trans hperm)
    have hrefs := hkept'.ready.refs
    dsimp only at hrefs
    by_cases hlast : s.dadp.refs - 1 ≤ 0
    · have hnil : (s.fds.eraseIdx k).flatMap Fd.difs = [] := by
        rw [← List.length_eq_zero_iff]
        rw [List.length_cons] at hrefs
        omega
      have hclosing := (perm_set hk (.closing dif)).flatMap_right Fd.difs
      rw [List.flatMap_cons, hnil, List.append_nil] at hclosing
      refine ⟨_, if_pos hlast, .asleep ?_ dif (List.perm_singleton.1 hclosing) (.inr ⟨?_, ?_⟩) ?_⟩
      · dsimp only [DpaAdapter.dropRef]
        rw [List.length_cons] at hrefs
        omega
      · exact (perm_set hk (.closing dif)).mem_iff.2 List.mem_cons_self
      · exact hkept'.ready.enabled.2 (List.cons_ne_nil _ _)
      · rw [hnil] at hkept' hrefs
        have hone : s.dadp.refs = 1 := hrefs
        have hon : s.enabled = true := hkept'.ready.enabled.2 (List.cons_ne_nil _ _)
        dsimp only
        rw [← hone, ← hon]
        exact hkept'
    · obtain ⟨s', hrun, hmore⟩ := hkept'.more hp hm (by omega)
      have hdrop : dropRef pools .closing dif s = some (.leaving,
          { s with dadp := { s.dadp with refs := s.dadp.refs - 1 }, memory := s' }) := by
        rw [dropRef, DpaAdapter.dropRef]
        dsimp only
        rw [if_neg hlast, Lifecycle.perform, hrun]
        rfl
      have hleaving := (perm_set hk .leaving).flatMap_right Fd.difs
      exact ⟨_, hdrop, .awake (awake_set hup rfl) _ hleaving.symm hmore⟩
  | asleep hrefs d hd hdown hkept =>
    obtain ⟨-, hnil⟩ := rest_difs hk rfl hd
    have hsleeper : ∀ x ∈ s.fds, x.asleep = true → False := fun x hx hasleep ↦ by
      rcases List.mem_cons.1 ((perm_getElem? hk).mem_iff.1 hx) with rfl | hrest
      · cases hasleep
      · exact difs_ne_nil hasleep (List.flatMap_eq_nil_iff.1 hnil x hrest)
    rcases hdown with hdown | ⟨hdown, -⟩
    · exact (hsleeper _ hdown rfl).elim
    · exact (hsleeper _ hdown rfl).elim

theorem Phase.wake (h : Phase pools bufSize m F R s) (hk : s.fds[k]? = some fd)
    (hdown : fd.asleep = true) (hfd : fd.difs = [dif]) :
    ∃ a, afterSleep pools dif s = some a ∧
      Phase pools bufSize m F R { a.2 with fds := s.fds.set k a.1 } := by
  cases h with
  | awake hup difs hdifs hkept =>
    rw [hup fd (List.mem_of_getElem? hk)] at hdown
    cases hdown
  | asleep hrefs d hd hsleeper hkept =>
    obtain ⟨rfl, hnil⟩ := rest_difs hk hfd hd
    obtain ⟨s', hall, hlast⟩ := hkept.last hp hm hrefs
    have hwoken : afterSleep pools dif s =
        some (.leaving, { s with enabled := false, memory := s' }) := by
      rw [afterSleep]
      dsimp only
      rw [Lifecycle.perform, hall]
      rfl
    have hleaving := (perm_set hk .leaving).flatMap_right Fd.difs
    rw [List.flatMap_cons, hnil] at hleaving
    refine ⟨_, hwoken, .awake (fun x hx ↦ ?_) [] hleaving.symm hlast⟩
    rcases List.mem_cons.1 ((perm_set hk .leaving).mem_iff.1 hx) with rfl | hrest
    · rfl
    · by_contra hasleep
      exact difs_ne_nil (Bool.eq_true_of_not_eq_false hasleep)
        (List.flatMap_eq_nil_iff.1 hnil x hrest)

omit hp hm in
/-- Whoever comes out of the loop finds nobody asleep, or one that has failed. -/
theorem failing_of_not_deleting (hdown : .failing dif ∈ s.fds ∨ .closing dif ∈ s.fds ∧ s.enabled = true)
    (hrefs : s.dadp.refs = 0) (hdeleting : s.deleting = false) : .failing dif ∈ s.fds := by
  refine hdown.resolve_right fun h ↦ ?_
  rw [Lifecycle.deleting, hrefs, h.2] at hdeleting
  cases hdeleting

/-- A registration, up to the sleep if the callback fails and it was the first. -/
theorem Phase.enter (h : Phase pools bufSize m F R s) {rounds ringId : ℕ} {reg : RegResult}
    (hk : s.fds[k]? = some (.waiting rounds)) (hdeleting : s.deleting = false)
    (hc : Alone pools s (k, .enter ringId reg)) :
    ∃ a, regLocked pools bufSize ringId reg s = some a ∧
      Phase pools bufSize m F R { a.2 with fds := s.fds.set k a.1 } := by
  have hleave : ∀ s' : Lifecycle, s'.dadp = s.dadp → s'.enabled = s.enabled → s'.memory = s.memory →
      Phase pools bufSize m F R { s' with fds := s.fds.set k .leaving } :=
    fun s' hdadp henabled hmemory ↦ h.move hk .leaving rfl rfl rfl hdadp henabled hmemory rfl
  rw [regLocked]
  by_cases hring : ringIdOk s.dadp ringId = true
  swap
  · rw [if_pos hring]
    exact ⟨_, rfl, hleave s rfl rfl rfl⟩
  rw [if_neg (not_not.2 hring)]
  by_cases hopen : s.dadp.refs = s.dadp.numRxRings
  · rw [Lifecycle.perform, run_regEnter_full hopen]
    exact ⟨_, rfl, hleave s rfl rfl rfl⟩
  obtain ⟨hclean, hnone⟩ := hc rounds hk hdeleting hring hopen
  cases h with
  | awake hup difs hdifs hkept =>
    obtain ⟨dif, dadp, s', hnew⟩ := hkept.newIf_runs hp hm
    have hset : ∀ fd', ((s.fds.set k fd').flatMap Fd.difs).Perm (fd'.difs ++ difs) := fun fd' ↦ by
      have hperm := (perm_getElem? hk).flatMap_right Fd.difs
      rw [List.flatMap_cons, show (Fd.waiting rounds).difs = [] from rfl, List.nil_append] at hperm
      have hafter := (perm_set hk fd').flatMap_right Fd.difs
      rw [List.flatMap_cons] at hafter
      exact hafter.trans ((hdifs.trans hperm).symm.append_left _)
    rw [Lifecycle.perform, run_regEnter_open hopen hnew]
    cases dif with
    | none =>
      exact ⟨_, rfl, .awake (awake_set hup rfl) difs (hset .leaving).symm
        (hkept.newIf_none hp hm hopen hclean hnew)⟩
    | some dif =>
      have hmore := hkept.newIf_some hp hm hopen hnew
      have hone : ∀ fd', fd'.difs = [dif] → (difs ++ [dif]).Perm ((s.fds.set k fd').flatMap Fd.difs) :=
        fun fd' hfd' ↦ by
          have hafter := hset fd'
          rw [hfd'] at hafter
          exact (hafter.trans List.perm_append_comm).symm
      by_cases hon : s.enabled = true
      · rw [RegPoint.of, if_pos hon]
        refine ⟨_, rfl, .awake (awake_set hup rfl) _ (hone (.entered dif) rfl) ?_⟩
        dsimp only at hmore ⊢
        rw [hon]
        exact hmore
      · rw [RegPoint.of, if_neg hon]
        cases reg with
        | ok => exact ⟨_, rfl, .awake (awake_set hup rfl) _ (hone (.entered dif) rfl) hmore⟩
        | failed e =>
          have hidle : difs = [] := by
            by_contra hne
            exact hon (hkept.ready.enabled.2 hne)
          subst hidle
          have hrefs : dadp.refs = 1 := hmore.ready.refs
          have hlast : dadp.refs - 1 ≤ 0 := by omega
          refine ⟨_, if_pos hlast, .asleep ?_ dif ?_ (.inl ?_) ?_⟩
          · dsimp only [DpaAdapter.dropRef]
            omega
          · exact List.perm_singleton.1 (hone (.failing dif) rfl).symm
          · exact (perm_set hk (.failing dif)).mem_iff.2 List.mem_cons_self
          · dsimp only
            rw [← hrefs]
            exact hmore
  | asleep hrefs d hd hdown hkept =>
    have hrep := hkept.owned.represented hm
    have hfail : ¬(0 < (s.memory.words .ifPool).objFree ∧
        ifLen s.dadp.numRxRings ≤ (pools .ifPool).objSize) := fun hif ↦
      hnone (by omega) hif.1 hif.2 d (failing_of_not_deleting hdown hrefs hdeleting)
    have hnew : (dpaNewIf pools bufSize s.dadp).run (access pools) s.memory =
        some ((none, s.dadp), s.memory) := by
      refine run_dpaNewIf_noIf hrep hkept.unlocked ?_
      rw [← Finset.not_nonempty_iff_eq_empty, ← not_le]
      refine not_and_or.1 fun hif ↦ hfail ⟨?_, hif.2⟩
      rw [(hrep .ifPool).count]
      exact Finset.card_pos.2 hif.1
    rw [Lifecycle.perform, run_regEnter_open hopen hnew]
    exact ⟨_, rfl, hleave s rfl rfl rfl⟩

theorem Phase.lifeExec (h : Phase pools bufSize m F R s) {c : ℕ × FdOp} (hc : Alone pools s c) :
    ∃ s', lifeExec pools bufSize s c = some s' ∧ Phase pools bufSize m F R s' := by
  obtain ⟨k, op⟩ := c
  rw [Kernel.lifeExec]
  cases hk : s.fds[k]? with
  | none => exact ⟨s, rfl, h⟩
  | some fd =>
    have hstay : ∃ s', ((some (fd, s)).map fun a : Fd × Lifecycle ↦
        { a.2 with fds := s.fds.set k a.1 }) = some s' ∧ Phase pools bufSize m F R s' :=
      ⟨_, rfl, h.stay hk⟩
    have hstep : ∀ {f : Option (Fd × Lifecycle)}, (∃ a, f = some a ∧
        Phase pools bufSize m F R { a.2 with fds := s.fds.set k a.1 }) →
        ∃ s', (f.map fun a ↦ { a.2 with fds := s.fds.set k a.1 }) = some s' ∧
          Phase pools bufSize m F R s' := by
      rintro _ ⟨a, rfl, ha⟩
      exact ⟨_, rfl, ha⟩
    refine hstep ?_
    cases fd with
    | idle =>
      cases op with
      | acquire lookup kmalloc =>
        rw [fdStep, dpaAcquireNetdev_eq]
        by_cases hfound : lookup = .found
        · rw [if_pos hfound]
          cases kmalloc with
          | true => exact ⟨_, rfl, h.move hk (.waiting 10) rfl rfl rfl rfl rfl rfl rfl⟩
          | false => exact ⟨_, rfl, h.move hk .idle rfl rfl rfl rfl rfl rfl rfl⟩
        · rw [if_neg hfound]
          exact ⟨_, rfl, h.stay hk⟩
      | _ => exact ⟨_, rfl, h.stay hk⟩
    | waiting rounds =>
      cases op with
      | enter ringId reg =>
        rw [fdStep]
        by_cases hdeleting : s.deleting = true
        · rw [if_pos hdeleting]
          refine ⟨_, rfl, h.move hk (if rounds ≤ 1 then .leaving else .waiting (rounds - 1)) rfl ?_ ?_ rfl rfl rfl rfl⟩
          · split_ifs <;> rfl
          · split_ifs <;> rfl
        · rw [if_neg hdeleting]
          exact h.enter hp hm hk (Bool.eq_false_iff.2 hdeleting) hc
      | _ => exact ⟨_, rfl, h.stay hk⟩
    | entered dif =>
      cases op with
      | publish => exact ⟨_, rfl, h.move hk (.registered dif) rfl rfl rfl rfl rfl rfl rfl⟩
      | _ => exact ⟨_, rfl, h.stay hk⟩
    | registered dif =>
      cases op with
      | destroy => exact h.destroy hp hm hk
      | _ => exact ⟨_, rfl, h.stay hk⟩
    | failing dif =>
      cases op with
      | wake => exact h.wake hp hm hk rfl rfl
      | _ => exact ⟨_, rfl, h.stay hk⟩
    | closing dif =>
      cases op with
      | wake => exact h.wake hp hm hk rfl rfl
      | _ => exact ⟨_, rfl, h.stay hk⟩
    | leaving =>
      cases op with
      | release => exact ⟨_, rfl, h.move hk .idle rfl rfl rfl rfl rfl rfl rfl⟩
      | _ => exact ⟨_, rfl, h.stay hk⟩

theorem Phase.run (h : Phase pools bufSize m F R s) {cs : List (ℕ × FdOp)}
    (hc : Throughout (Kernel.lifeExec pools bufSize) (Alone pools) cs s) :
    ∃ s', run (Kernel.lifeExec pools bufSize) cs s = some s' ∧ Phase pools bufSize m F R s' := by
  induction cs generalizing s with
  | nil => exact ⟨s, rfl, h⟩
  | cons c cs ih =>
    obtain ⟨s₁, heq, h₁⟩ := h.lifeExec hp hm hc.1
    obtain ⟨s', hrun, h'⟩ := ih h₁ (hc.2 s₁ heq)
    exact ⟨s', (run_cons heq).trans hrun, h'⟩

end

def Lifecycle.start (nrx ndesc fds : ℕ) (memory : PoolMemory) : Lifecycle where
  dadp := (dpaAttach nrx ndesc).dadp
  enabled := false
  memory := memory
  netdevRefs := 0
  moduleRefs := 0
  fds := List.replicate fds .idle

section

variable {pools : PoolId → DpaObjPool} {bufSize : ℕ} {m : PoolMemory} {F : PoolId → Finset ℕ}
  {R : PoolId → List ℕ} {s : Lifecycle}

theorem Phase.start {memory : PoolMemory} (ho : Owned m F memory R) (hlock : memory.locked = false)
    (nrx ndesc fds : ℕ) :
    Phase pools bufSize m F R (Lifecycle.start nrx ndesc fds memory) := by
  have hidle : ∀ fd ∈ (Lifecycle.start nrx ndesc fds memory).fds, fd = .idle := fun fd hfd ↦
    List.eq_of_mem_replicate hfd
  refine .awake (fun fd hfd ↦ by rw [hidle fd hfd]; rfl) [] ?_ ⟨.attached _ _ _ _, ?_, hlock⟩
  · rw [List.flatMap_eq_nil_iff.2 fun fd hfd ↦ by rw [hidle fd hfd]; rfl]
  · exact ho.perm fun p ↦ by rw [holding_nil rfl, List.nil_append]

theorem RefsHeld.start (nrx ndesc fds : ℕ) (memory : PoolMemory) :
    RefsHeld (Lifecycle.start nrx ndesc fds memory) := by
  have hsum : ((Lifecycle.start nrx ndesc fds memory).fds.map Fd.refs).sum = 0 := by
    rw [Lifecycle.start, List.map_replicate, List.sum_replicate, Fd.refs, smul_zero]
  exact ⟨by rw [hsum]; rfl, by rw [hsum]; rfl⟩

theorem Quiet.difs {fds : List Fd} (h : ∀ fd ∈ fds, fd = .idle ∨ ∃ dif, fd = .registered dif) :
    fds.flatMap Fd.difs = registered fds ∧ (fds.map Fd.refs).sum = (registered fds).length := by
  induction fds with
  | nil => exact ⟨rfl, rfl⟩
  | cons fd fds ih =>
    obtain ⟨hdifs, hrefs⟩ := ih fun x hx ↦ h x (List.mem_cons_of_mem _ hx)
    rw [registered, List.flatMap_cons, List.flatMap_cons, ← registered, hdifs, List.map_cons,
      List.sum_cons, hrefs, List.length_append]
    rcases h fd List.mem_cons_self with rfl | ⟨dif, rfl⟩
    · exact ⟨rfl, rfl⟩
    · exact ⟨rfl, rfl⟩

theorem Phase.balanced (h : Phase pools bufSize m F R s) (hrefs : RefsHeld s) (hq : Quiet s) :
    Balanced pools bufSize m F R s := by
  obtain ⟨hdifs, hsum⟩ := Quiet.difs hq
  cases h with
  | awake hup difs hperm hkept =>
    rw [hdifs] at hperm
    have hk := hkept.perm hperm
    have hcount : s.dadp.refs = (registered s.fds).length := hk.ready.refs
    have hpos : 0 < s.dadp.refs ↔ registered s.fds ≠ [] := hk.ready.refs_pos
    refine ⟨hcount, hk.ready.enabled.trans hpos.symm, fun h ↦ hk.ready.filled (hpos.1 h), ?_, ?_,
      hk.owned⟩
    · rw [hrefs.netdev, hsum, hcount]
    · rw [hrefs.module, hsum, hcount]
  | asleep _ dif _ hdown _ =>
    have hno : ∀ fd ∈ s.fds, fd.asleep = false := fun fd hfd ↦ by
      rcases hq fd hfd with rfl | ⟨d, rfl⟩
      · rfl
      · rfl
    rcases hdown with hdown | ⟨hdown, -⟩
    · cases hno _ hdown
    · cases hno _ hdown

/-- Whatever the threads of an interface do, as long as no registration sets the rings up that a failed
one has yet to release, or leaves older rings behind: when they are done all is in balance. -/
theorem registrations_balanced (hp : SoundPools pools bufSize) (hm : Represented pools m F)
    {memory : PoolMemory} (ho : Owned m F memory R) (hlock : memory.locked = false)
    (nrx ndesc fds : ℕ) (cs : List (ℕ × FdOp))
    (hc : Throughout (lifeExec pools bufSize) (Alone pools) cs
      (Lifecycle.start nrx ndesc fds memory)) :
    ∃ s, run (lifeExec pools bufSize) cs (Lifecycle.start nrx ndesc fds memory) = some s ∧
      (Quiet s → Balanced pools bufSize m F R s) := by
  obtain ⟨s, hrun, hphase⟩ := (Phase.start ho hlock nrx ndesc fds).run hp hm hc
  have hrefs : RefsHeld s := run_preserves (P := RefsHeld) (fun _ _ _ h hexec ↦ h.lifeExec hexec)
    (.start nrx ndesc fds memory) hrun
  exact ⟨s, hrun, hphase.balanced hrefs⟩

/-- The first registration of an interface that is off, up to the sleep if the callback fails. -/
theorem regLocked_first (hp : SoundPools pools bufSize) (hrep : Represented pools s.memory F)
    (hlock : s.memory.locked = false) (hrefs : s.dadp.refs = 0) (hoff : s.enabled = false)
    (hnrx : 0 < s.dadp.numRxRings) (hF : (F .ifPool).Nonempty)
    (hlen : ifLen s.dadp.numRxRings ≤ (pools .ifPool).objSize)
    (hen : Enough pools F s.dadp.numRxDescs s.dadp.numRxRings) {k : ℕ}
    (hring : ringIdOk s.dadp k = true) :
    ∃ dif x rx A, IsObject (pools .ifPool) dif.va x ∧ FreeObjs F A ∧
      ((A .ifPool).length = 1 ∧ (A .ringPool).length = s.dadp.numRxRings ∧
        (A .bufPool).length = s.dadp.numRxRings * s.dadp.numRxDescs) ∧
      (∀ j < s.dadp.numRxRings, Filled pools bufSize s.dadp.numRxDescs (rx j)) ∧
      (∀ e, regLocked pools bufSize k (.failed e) s = some (.failing dif,
        { s with
          dadp := { s.dadp with refs := 0, rxRings := rx }
          enabled := e
          memory := s.memory.takeAll A })) ∧
      regLocked pools bufSize k .ok s = some (.entered dif,
        { s with
          dadp := { s.dadp with refs := 1, rxRings := rx }
          enabled := true
          memory := s.memory.takeAll A }) ∧
      (destroyLast pools { s.dadp with refs := 0, rxRings := rx } dif.va).run (access pools)
        (s.memory.takeAll A) = some ((), s.memory) := by
  have hnot : ¬0 < s.dadp.refs := by omega
  have hopen : s.dadp.refs ≠ s.dadp.numRxRings := by omega
  obtain ⟨x, rx, hnew, hfree, hfilled, -⟩ := run_dpaNewIf_first hp hrep hlock hF hlen hnot hen
  have hx := (hrep .ifPool).range x ((hfree .ifPool).2 x (by simp))
  obtain ⟨hring', hbuf'⟩ := length_ringGrants hp hfilled
  refine ⟨newIf pools ((pools .ifPool).addrTbl x).vaddr
    { s.dadp with refs := s.dadp.refs + 1, rxRings := rx }, x, rx, _, ⟨hx.1, hx.2, rfl⟩, hfree,
    ⟨by simp, by simpa [only_of_ne] using hring', by simpa [only_of_ne] using hbuf'⟩, hfilled,
    fun e ↦ ?_, ?_, ?_⟩
  · rw [regLocked, if_neg (not_not.2 hring), Lifecycle.perform, run_regEnter_open hopen hnew, hoff]
    refine (Option.bind_some _ _).trans ?_
    dsimp only [RegPoint.of]
    rw [if_neg Bool.false_ne_true, hrefs]
    rfl
  · rw [regLocked, if_neg (not_not.2 hring), Lifecycle.perform, run_regEnter_open hopen hnew, hoff,
      hrefs]
    rfl
  · have hlast := run_destroyLast hp (s := s.memory.takeAll fun p ↦
        only .ifPool [x] p ++ ringGrants pools rx (List.range s.dadp.numRxRings) p)
      { s.dadp with refs := 0, rxRings := rx } hlock (fun j hj ↦ (hfilled j hj).pointer)
      ⟨hx.1, hx.2, rfl⟩
    rw [hrep.putAll_takeAll hfree (returned_perm hrep hfree.right)] at hlast
    exact hlast

theorem afterSleep_runs (hp : SoundPools pools bufSize) (hlock : s.memory.locked = false)
    (hptr : ∀ j < s.dadp.numRxRings, Pointer pools (s.dadp.rxRings j)) {dif : DpaIf} {x : ℕ}
    (hx : IsObject (pools .ifPool) dif.va x) :
    ∃ memory, afterSleep pools dif s =
      some (.leaving, { s with enabled := false, memory := memory }) := by
  refine ⟨s.memory.putAll (returned pools s.dadp x), ?_⟩
  rw [afterSleep]
  dsimp only
  rw [Lifecycle.perform, run_destroyLast hp s.dadp hlock hptr hx]
  rfl

theorem lifeExec_of {k : ℕ} {fd fd' : Fd} {op : FdOp} {s' : Lifecycle} (hk : s.fds[k]? = some fd)
    (h : fdStep pools bufSize fd op s = some (fd', s')) :
    lifeExec pools bufSize s (k, op) = some { s' with fds := s.fds.set k fd' } := by
  rw [lifeExec]
  dsimp only
  rw [hk]
  dsimp only
  rw [h]
  rfl

theorem fdStep_enter {n ringId : ℕ} {reg : RegResult} (h : s.deleting = false) :
    fdStep pools bufSize (.waiting n) (.enter ringId reg) s =
      regLocked pools bufSize ringId reg s := by
  rw [fdStep, if_neg (ne_true_of_eq_false h)]

/-- One registration whose callback fails, and another one that comes while it sleeps. -/
def overtaken : List (ℕ × FdOp) :=
  [(0, .acquire .found true), (1, .acquire .found true), (0, .enter 0 (.failed false)),
    (1, .enter 0 .ok), (1, .publish), (0, .wake), (0, .release)]

/-- The one that failed turns the interface off that the other one has turned on. -/
theorem run_overtaken (hp : SoundPools pools bufSize) (hm : Represented pools m F)
    (hlock : m.locked = false) {nrx ndesc : ℕ} (hnrx : 0 < nrx)
    (hlen : ifLen nrx ≤ (pools .ifPool).objSize) (hrlen : ringLen ndesc ≤ (pools .ringPool).objSize)
    (hif : 2 ≤ (F .ifPool).card) (hring : 2 * nrx ≤ (F .ringPool).card)
    (hbuf : 2 * (nrx * ndesc) ≤ (F .bufPool).card) :
    ∃ s, run (lifeExec pools bufSize) overtaken (Lifecycle.start nrx ndesc 2 m) = some s ∧
      Quiet s ∧ s.dadp.refs = 1 ∧ s.enabled = false := by
  have hacquire₀ : lifeExec pools bufSize (Lifecycle.start nrx ndesc 2 m) (0, .acquire .found true) =
      some ⟨(dpaAttach nrx ndesc).dadp, false, m, 1, 1, [.waiting 10, .idle]⟩ := rfl
  have hacquire₁ : lifeExec pools bufSize
      ⟨(dpaAttach nrx ndesc).dadp, false, m, 1, 1, [.waiting 10, .idle]⟩ (1, .acquire .found true) =
      some ⟨(dpaAttach nrx ndesc).dadp, false, m, 2, 2, [.waiting 10, .waiting 10]⟩ := rfl
  obtain ⟨dif, x, rx, A, hx, hfree, ⟨hlif, hlring, hlbuf⟩, -, hfailed, -, -⟩ :=
    regLocked_first (s := ⟨(dpaAttach nrx ndesc).dadp, false, m, 2, 2,
      [.waiting 10, .waiting 10]⟩) hp hm hlock rfl rfl hnrx (Finset.card_pos.1 (by omega)) hlen
      (.inr ⟨hrlen, by change nrx ≤ _; omega, by change nrx * ndesc ≤ _; omega⟩)
      (k := 0) (decide_eq_true hnrx)
  have hfail := lifeExec_of (k := 0) rfl ((fdStep_enter (n := 10) rfl).trans (hfailed false))
  have hcif := hfree.card .ifPool
  have hcring := hfree.card .ringPool
  have hcbuf := hfree.card .bufPool
  rw [hlif] at hcif
  rw [hlring] at hcring
  rw [hlbuf] at hcbuf
  change _ + nrx = _ at hcring
  change _ + nrx * ndesc = _ at hcbuf
  have hen : Enough pools (fun p ↦ F p \ (A p).toFinset) ndesc nrx :=
    .inr ⟨hrlen, by dsimp only; omega, by dsimp only; omega⟩
  obtain ⟨dif', x', rx', A', -, -, -, hfilled', -, hok, -⟩ :=
    regLocked_first (s := ⟨{ (dpaAttach nrx ndesc).dadp with
      refs := 0, rxRings := rx }, false, m.takeAll A, 2, 2, [.failing dif, .waiting 10]⟩) hp
      (hm.takeAll hfree) hlock rfl rfl hnrx (Finset.card_pos.1 (by omega)) hlen hen
      (k := 0) (decide_eq_true hnrx)
  have henter := lifeExec_of (k := 1) rfl ((fdStep_enter (n := 10) rfl).trans hok)
  have hpublish : lifeExec pools bufSize ⟨{ (dpaAttach nrx ndesc).dadp with refs := 1, rxRings := rx' },
      true, (m.takeAll A).takeAll A', 2, 2, [.failing dif, .entered dif']⟩ (1, .publish) =
      some ⟨{ (dpaAttach nrx ndesc).dadp with refs := 1, rxRings := rx' }, true,
        (m.takeAll A).takeAll A', 2, 2, [.failing dif, .registered dif']⟩ := rfl
  obtain ⟨memory, hwake⟩ := afterSleep_runs (s := ⟨{ (dpaAttach nrx ndesc).dadp with
      refs := 1, rxRings := rx' }, true, (m.takeAll A).takeAll A', 2, 2,
      [.failing dif, .registered dif']⟩) hp hlock (fun j hj ↦ (hfilled' j hj).pointer) hx
  have hwoken := lifeExec_of (k := 0) rfl
    (show fdStep pools bufSize (.failing dif) .wake _ = _ from hwake)
  refine ⟨⟨{ (dpaAttach nrx ndesc).dadp with refs := 1, rxRings := rx' }, false, memory, 1, 1,
    [.idle, .registered dif']⟩, ?_, ?_, rfl, rfl⟩
  · rw [overtaken, run_cons hacquire₀, run_cons hacquire₁, run_cons hfail]
    refine (run_cons henter).trans ?_
    exact (run_cons hpublish).trans ((run_cons hwoken).trans rfl)
  · intro fd hfd
    rcases List.mem_cons.1 hfd with rfl | hfd
    · exact .inl rfl
    · exact .inr ⟨dif', List.mem_singleton.1 hfd⟩

end

/-- A callback fails because the interface is down; it comes up and the next callback does not. -/
theorem overtaken_unbalanced : ∃ a, dpaMemInit farPages id (dpaParamInit crowded) = some a ∧
    ∃ s, run (lifeExec a.pools (dpaParamInit crowded).bufSize) overtaken
        (Lifecycle.start 1 256 2 ⟨a.words, false⟩) = some s ∧ Quiet s ∧
      ¬Balanced a.pools (dpaParamInit crowded).bufSize ⟨a.words, false⟩
        (fun q ↦ Finset.Ico 2 (a.pools q).objTotal) (fun _ ↦ []) s := by
  obtain ⟨a, ha, hp, hrep, hif, hlen, hring, hrlen, hbuf⟩ := crowded_loads
  have hlen₁ : ifLen 1 ≤ ifLen 2 := by decide
  obtain ⟨s, hrun, hq, hrefs, hoff⟩ := run_overtaken hp hrep (m := ⟨a.words, false⟩) rfl
    Nat.one_pos (hlen₁.trans hlen) hrlen (by rw [Nat.card_Ico, hif]; decide)
    (by rw [Nat.card_Ico, hring]) (by rw [Nat.card_Ico, hbuf])
  refine ⟨a, ha, s, hrun, hq, fun hbalanced ↦ ?_⟩
  have hon := hbalanced.enabled.2 (by rw [hrefs]; decide)
  rw [hoff] at hon
  cases hon

/-- A registration comes while the destructor of the last one is asleep, and waits for it. -/
def handedOn : List (ℕ × FdOp) :=
  [(0, .acquire .found true), (1, .acquire .found true), (0, .enter 0 .ok), (0, .publish),
    (0, .destroy), (1, .enter 0 .ok), (0, .wake), (0, .release), (1, .enter 0 .ok), (1, .publish)]

theorem registrations_balanced_crowded : ∃ a,
    dpaMemInit farPages id (dpaParamInit crowded) = some a ∧
    ∃ s, run (lifeExec a.pools (dpaParamInit crowded).bufSize) handedOn
        (Lifecycle.start 1 256 2 ⟨a.words, false⟩) = some s ∧ s.dadp.refs = 1 ∧
      Balanced a.pools (dpaParamInit crowded).bufSize ⟨a.words, false⟩
        (fun q ↦ Finset.Ico 2 (a.pools q).objTotal) (fun _ ↦ []) s := by
  obtain ⟨a, ha, hc⟩ := crowded_loads
  have hp := hc.sound
  have hrep := hc.represented
  have hlen : ifLen 1 ≤ ifLen 2 := by decide
  have hfirst (rx : ℕ → RxRing) (n : ℤ) (fds : List Fd) := regLocked_first
    (s := ⟨⟨0, 1, 256, rx⟩, false, ⟨a.words, false⟩, n, n, fds⟩) hp hrep rfl rfl rfl Nat.one_pos
    hc.ifs_nonempty (hlen.trans hc.ifFits) hc.enough (k := 0) rfl
  obtain ⟨dif, -, rx, A, -, -, -, -, -, hok, hlast⟩ :=
    hfirst (dpaAttach 1 256).dadp.rxRings 2 [.waiting 10, .waiting 10]
  obtain ⟨dif', -, rx', A', -, -, -, -, -, hok', -⟩ := hfirst rx 1 [.idle, .waiting 9]
  have henter := lifeExec_of (k := 0) rfl ((fdStep_enter (n := 10) rfl).trans hok)
  have hwake : afterSleep a.pools dif ⟨⟨0, 1, 256, rx⟩, true, PoolMemory.takeAll ⟨a.words, false⟩ A, 2,
      2, [.closing dif, .waiting 9]⟩ = some (.leaving, ⟨⟨0, 1, 256, rx⟩, false, ⟨a.words, false⟩, 2, 2,
        [.closing dif, .waiting 9]⟩) := by
    rw [afterSleep]
    dsimp only
    rw [Lifecycle.perform, hlast]
    rfl
  have hwoken : lifeExec a.pools (dpaParamInit crowded).bufSize _ (0, .wake) = _ :=
    lifeExec_of rfl (show fdStep a.pools _ (.closing dif) .wake _ = _ from hwake)
  have henter' := lifeExec_of (k := 1) rfl ((fdStep_enter (n := 9) rfl).trans hok')
  have hnone (dadp : DpaAdapter) (s : PoolMemory) (h : dadp.numRxRings = 1) :
      NoneLeftOver a.pools s dadp := fun _ _ _ j hj _ ↦ .inl (by omega)
  have hrun : run (lifeExec a.pools (dpaParamInit crowded).bufSize) handedOn
      (Lifecycle.start 1 256 2 ⟨a.words, false⟩) = some ⟨⟨1, 1, 256, rx'⟩, true,
        PoolMemory.takeAll ⟨a.words, false⟩ A', 1, 1, [.idle, .registered dif']⟩ :=
    (run_cons rfl).trans ((run_cons rfl).trans ((run_cons henter).trans ((run_cons rfl).trans
      ((run_cons rfl).trans ((run_cons rfl).trans ((run_cons hwoken).trans ((run_cons rfl).trans
        ((run_cons henter').trans ((run_cons rfl).trans rfl)))))))))
  have halone : Throughout (lifeExec a.pools (dpaParamInit crowded).bufSize) (Alone a.pools) handedOn
      (Lifecycle.start 1 256 2 ⟨a.words, false⟩) := by
    refine .cons trivial rfl (.cons trivial rfl (.cons ?_ henter (.cons trivial rfl (.cons trivial rfl
      (.cons ?_ rfl (.cons trivial hwoken (.cons trivial rfl (.cons ?_ henter' (.cons trivial rfl
        trivial)))))))))
    · refine fun _ _ _ _ _ ↦ ⟨hnone _ _ rfl, fun _ _ _ d hd ↦ ?_⟩
      change Fd.failing d ∈ [.waiting 10, .waiting 10] at hd
      simp at hd
    · exact fun _ _ hdeleting ↦ absurd (show true = false from hdeleting) (by decide)
    · refine fun _ _ _ _ _ ↦ ⟨hnone _ _ rfl, fun _ _ _ d hd ↦ ?_⟩
      simp at hd
  obtain ⟨s, hrun', hbalanced⟩ := registrations_balanced hp (m := ⟨a.words, false⟩) hrep .nil rfl 1 256 2
    handedOn halone
  obtain rfl := Option.some.inj (hrun.symm.trans hrun')
  refine ⟨a, ha, _, hrun, rfl, hbalanced fun fd hfd ↦ ?_⟩
  rcases List.mem_cons.1 hfd with rfl | hfd
  · exact .inl rfl
  · exact .inr ⟨dif', List.mem_singleton.1 hfd⟩

end Dpa.Kernel
