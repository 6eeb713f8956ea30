import Dpa.Driver.Capacity
import Dpa.Kernel.Lifecycle
import Dpa.Kernel.UserView

namespace Dpa.Driver

open Kernel Library

/-- A `net_device`: whether it is up, its enable flag, and the sum of what the callbacks have added to
its promiscuity. -/
structure NetDevice where
  up : Bool
  enabled : Bool
  promisc : ℤ

/-- What a callback meets with: whether the device runs, whether it can be set up again, and whether
`dev_set_promiscuity` succeeds. -/
structure RegEnv where
  running : Bool
  initOk : Bool
  promiscOk : Bool

section

variable (dpaFlagAlterPromisc : Bool) (env : RegEnv) (reg : Bool) (dev : NetDevice)

/-- What all callbacks end with: whether they succeed, and the device they leave. -/
def alterPromisc : Bool × NetDevice :=
  if dpaFlagAlterPromisc then
    if env.promiscOk then (true, { dev with promisc := dev.promisc + if reg then 1 else -1 })
    else (false, dev)
  else (true, dev)

def intelDpaReg : Bool × NetDevice :=
  if ¬dev.up ∧ reg then (false, dev)
  else alterPromisc dpaFlagAlterPromisc env reg { dev with enabled := reg }

def igbDpaReg : Bool × NetDevice := intelDpaReg dpaFlagAlterPromisc env reg dev

def ixgbeDpaReg : Bool × NetDevice := intelDpaReg dpaFlagAlterPromisc env reg dev

def bnx2DpaReg : Bool × NetDevice :=
  if ¬dev.up ∧ reg then (false, dev)
  else
    let dev := { dev with enabled := reg }
    -- a device that cannot be set up again is closed, and the promiscuity is left alone
    if dev.up && env.running && !env.initOk then (false, { dev with up := false })
    else alterPromisc dpaFlagAlterPromisc env reg dev

def NicDriver.dpaReg : NicDriver → Bool × NetDevice
  | igb => igbDpaReg dpaFlagAlterPromisc env reg dev
  | ixgbe => ixgbeDpaReg dpaFlagAlterPromisc env reg dev
  | bnx2 => bnx2DpaReg dpaFlagAlterPromisc env reg dev

end

/-- A callback that gets past its test of a device that is down comes to `dev_set_promiscuity`, which
succeeds. -/
def NicDriver.alters (driver : NicDriver) (env : RegEnv) (up : Bool) : Bool :=
  match driver with
  | bnx2 => !(up && env.running && !env.initOk) && env.promiscOk
  | _ => env.promiscOk

section

variable {driver : NicDriver} {env : RegEnv} {dev : NetDevice}

theorem alterPromisc_ok (h : env.promiscOk = true) (reg : Bool) :
    alterPromisc true env reg dev =
      (true, { dev with promisc := dev.promisc + if reg then 1 else -1 }) := by
  rw [alterPromisc, if_pos rfl, if_pos h]

theorem alterPromisc_fails (h : env.promiscOk = false) (reg : Bool) :
    alterPromisc true env reg dev = (false, dev) := by
  rw [alterPromisc, if_pos rfl, if_neg (ne_true_of_eq_false h)]

theorem dpaReg_on (hup : dev.up = true) (h : driver.alters env dev.up = true) :
    driver.dpaReg true env true dev =
      (true, { dev with enabled := true, promisc := dev.promisc + 1 }) := by
  have hpast : ¬(¬dev.up = true ∧ true = true) := fun h ↦ h.1 hup
  cases driver with
  | bnx2 =>
    obtain ⟨hinit, hok⟩ := Bool.and_eq_true_iff.1 h
    rw [NicDriver.dpaReg, bnx2DpaReg, if_neg hpast]
    exact (if_neg (ne_true_of_eq_false (Bool.not_eq_eq_eq_not.1 hinit))).trans (alterPromisc_ok hok true)
  | igb =>
    rw [NicDriver.dpaReg, igbDpaReg, intelDpaReg, if_neg hpast]
    exact alterPromisc_ok h true
  | ixgbe =>
    rw [NicDriver.dpaReg, ixgbeDpaReg, intelDpaReg, if_neg hpast]
    exact alterPromisc_ok h true

theorem dpaReg_fails (h : ¬(dev.up = true ∧ driver.alters env dev.up = true)) :
    (driver.dpaReg true env true dev).1 = false ∧
      (driver.dpaReg true env true dev).2.promisc = dev.promisc := by
  by_cases hup : dev.up = true
  swap
  · have hdown : ¬dev.up = true ∧ true = true := ⟨hup, rfl⟩
    cases driver with
    | bnx2 =>
      rw [NicDriver.dpaReg, bnx2DpaReg, if_pos hdown]
      exact ⟨rfl, rfl⟩
    | igb =>
      rw [NicDriver.dpaReg, igbDpaReg, intelDpaReg, if_pos hdown]
      exact ⟨rfl, rfl⟩
    | ixgbe =>
      rw [NicDriver.dpaReg, ixgbeDpaReg, intelDpaReg, if_pos hdown]
      exact ⟨rfl, rfl⟩
  have hpast : ¬(¬dev.up = true ∧ true = true) := fun h ↦ h.1 hup
  have halters : driver.alters env dev.up = false := Bool.eq_false_iff.2 fun h' ↦ h ⟨hup, h'⟩
  cases driver with
  | bnx2 =>
    rw [NicDriver.dpaReg, bnx2DpaReg, if_neg hpast]
    dsimp only
    by_cases hrc : (dev.up && env.running && !env.initOk) = true
    · rw [if_pos hrc]
      exact ⟨rfl, rfl⟩
    · rw [NicDriver.alters, Bool.eq_false_iff.2 hrc] at halters
      rw [if_neg hrc, alterPromisc_fails halters]
      exact ⟨rfl, rfl⟩
  | igb =>
    rw [NicDriver.dpaReg, igbDpaReg, intelDpaReg, if_neg hpast, alterPromisc_fails halters]
    exact ⟨rfl, rfl⟩
  | ixgbe =>
    rw [NicDriver.dpaReg, ixgbeDpaReg, intelDpaReg, if_neg hpast, alterPromisc_fails halters]
    exact ⟨rfl, rfl⟩

theorem alterPromisc_off (env : RegEnv) (dev : NetDevice) :
    (alterPromisc true env false dev).2.enabled = dev.enabled ∧
      (alterPromisc true env false dev).2.promisc =
        dev.promisc - if env.promiscOk then 1 else 0 := by
  cases hok : env.promiscOk with
  | true =>
    rw [alterPromisc_ok hok]
    exact ⟨rfl, rfl⟩
  | false =>
    rw [alterPromisc_fails hok]
    exact ⟨rfl, (sub_zero _).symm⟩

theorem dpaReg_off (driver : NicDriver) (env : RegEnv) (dev : NetDevice) :
    (driver.dpaReg true env false dev).2.enabled = false ∧
      (driver.dpaReg true env false dev).2.promisc =
        dev.promisc - if driver.alters env dev.up then 1 else 0 := by
  have hpast : ¬(¬dev.up = true ∧ false = true) := fun h ↦ Bool.false_ne_true h.2
  cases driver with
  | bnx2 =>
    rw [NicDriver.dpaReg, bnx2DpaReg, if_neg hpast, NicDriver.alters]
    dsimp only
    cases hrc : dev.up && env.running && !env.initOk with
    | true => exact ⟨rfl, (sub_zero _).symm⟩
    | false => exact alterPromisc_off env { dev with enabled := false }
  | igb =>
    rw [NicDriver.dpaReg, igbDpaReg, intelDpaReg, if_neg hpast]
    exact alterPromisc_off env { dev with enabled := false }
  | ixgbe =>
    rw [NicDriver.dpaReg, ixgbeDpaReg, intelDpaReg, if_neg hpast]
    exact alterPromisc_off env { dev with enabled := false }

end

structure Iface where
  dadp : DpaAdapter
  difs : List DpaIf
  memory : PoolMemory
  dev : NetDevice

/-- `found` is whether `dpa_reg_if` comes out of its loop; `first` is what its callback meets with and
`last` the one of a destructor, before which the interface may have gone up or down. -/
inductive IfaceOp
  | link (up : Bool)
  | register (found : Bool) (ringId : ℕ) (first last : RegEnv) (up : Bool)
  | unregister (k : ℕ) (last : RegEnv) (up : Bool)

section

variable (driver : NicDriver) (dpaFlagAlterPromisc : Bool) (pools : PoolId → DpaObjPool) (bufSize : ℕ)

def destructorLocked (last : RegEnv) (up : Bool) (dif : DpaIf) (s : Iface) : Option Iface := do
  let (dadp, memory) ← (dpaDestructorLocked pools s.dadp dif.va).run (access pools) s.memory
  some { s with
    dadp := dadp
    memory := memory
    dev :=
      if dadp.refs ≤ 0 then (driver.dpaReg dpaFlagAlterPromisc last false { s.dev with up := up }).2
      else s.dev }

def ifaceExec (s : Iface) : IfaceOp → Option Iface
  | .link up => some { s with dev := { s.dev with up := up } }
  | .register found ringId first last up =>
    if ¬(found ∧ ringIdOk s.dadp ringId) then some s
    else do
      let ((point, dadp), memory) ←
        (regEnter pools bufSize s.dev.enabled s.dadp).run (access pools) s.memory
      let s := { s with dadp := dadp, memory := memory }
      match point with
      | .full | .noObjects => some s
      | .joins dif => some { s with difs := s.difs ++ [dif] }
      | .enables dif =>
        let (ok, dev) := driver.dpaReg dpaFlagAlterPromisc first true s.dev
        if ok then some { s with dev := dev, difs := s.difs ++ [dif] }
        else destructorLocked driver dpaFlagAlterPromisc pools last up dif { s with dev := dev }
  | .unregister k last up =>
    match s.difs[k]? with
    | none => some s
    | some dif => do
      let s' ← destructorLocked driver dpaFlagAlterPromisc pools last up dif s
      some { s' with difs := s.difs.eraseIdx k }

end

def Iface.start (nrx ndesc : ℕ) (memory : PoolMemory) (up : Bool) : Iface where
  dadp := (dpaAttach nrx ndesc).dadp
  difs := []
  memory := memory
  dev := ⟨up, false, 0⟩

/-- What a call leaves: the sum is 1 while the interface is enabled and 0 while it is not, and nothing
is added without a registration that has come or gone. -/
structure KeepsBalance (s s' : Iface) : Prop where
  sum : s'.dev.promisc = if s'.dev.enabled then 1 else 0
  same : s'.difs = s.difs → s'.dev.promisc = s.dev.promisc

structure Iface.Counted (s : Iface) : Prop where
  refs : s.dadp.refs = s.difs.length
  enabled : s.dev.enabled = true ↔ s.difs ≠ []

structure CallsBack (pools : PoolId → DpaObjPool) (bufSize : ℕ) (s : Iface) (found : Bool)
    (ringId : ℕ) : Prop where
  found : found = true
  ringId : ringIdOk s.dadp ringId = true
  notFull : s.dadp.refs ≠ s.dadp.numRxRings
  disabled : s.dev.enabled = false
  objects : ∃ dif dadp memory, (dpaNewIf pools bufSize s.dadp).run (access pools) s.memory =
    some ((some dif, dadp), memory)

/-- A registration whose callback fails does not lower the promiscuity afterwards, and the end of the
last one does. -/
def Settles (driver : NicDriver) (pools : PoolId → DpaObjPool) (bufSize : ℕ) (s : Iface) :
    IfaceOp → Prop
  | .link _ => True
  | .register found ringId first last up => CallsBack pools bufSize s found ringId →
      s.dev.up = true ∧ driver.alters first s.dev.up = true ∨ driver.alters last up = false
  | .unregister k last up => s.difs.length = 1 → k = 0 → driver.alters last up = true

section

variable {driver : NicDriver} {pools : PoolId → DpaObjPool} {bufSize : ℕ} {s s' : Iface}

theorem destructorLocked_eq {last : RegEnv} {up : Bool} {dif : DpaIf}
    (h : destructorLocked driver true pools last up dif s = some s') :
    s'.difs = s.difs ∧ s'.dadp.refs = s.dadp.refs - 1 ∧
      (s.dadp.refs ≤ 1 → s'.dev.enabled = false ∧
        s'.dev.promisc = s.dev.promisc - if driver.alters last up then 1 else 0) ∧
      (¬s.dadp.refs ≤ 1 → s'.dev = s.dev) := by
  obtain ⟨⟨dadp, memory⟩, hrun, hret⟩ := Option.bind_eq_some_iff.1 h
  cases hret
  obtain rfl := (dpaDestructorLocked_yields s.dadp dif.va).of_run hrun
  refine ⟨rfl, rfl, fun hle ↦ ?_, fun hgt ↦ if_neg (by dsimp only; omega)⟩
  have hlast : s.dadp.refs - 1 ≤ 0 := by omega
  dsimp only
  rw [if_pos hlast]
  exact dpaReg_off driver last { s.dev with up := up }

theorem KeepsBalance.of_dev (hsum : s.dev.promisc = if s.dev.enabled then 1 else 0)
    (hdev : s'.dev = s.dev) : KeepsBalance s s' :=
  ⟨by rw [hdev]; exact hsum, fun _ ↦ by rw [hdev]⟩

/-- A registration that comes to the callback: one more if it succeeds, and else what the destructor
leaves. -/
theorem CallsBack.step {found : Bool} {ringId : ℕ} (h : CallsBack pools bufSize s found ringId)
    (hs : s.Counted) {first last : RegEnv} {up : Bool}
    (hexec : ifaceExec driver true pools bufSize s (.register found ringId first last up) = some s') :
    (s.dev.up = true ∧ driver.alters first s.dev.up = true → s'.dadp.refs = 1 ∧
      s'.difs.length = 1 ∧ s'.dev = { s.dev with enabled := true, promisc := s.dev.promisc + 1 }) ∧
    (¬(s.dev.up = true ∧ driver.alters first s.dev.up = true) → s'.dadp.refs = 0 ∧ s'.difs = [] ∧
      s'.dev.enabled = false ∧
      s'.dev.promisc = s.dev.promisc - if driver.alters last up then 1 else 0) := by
  obtain ⟨dif, dadp, memory, hnew⟩ := h.objects
  have hdifs : s.difs = [] := by
    by_contra hne
    exact ne_true_of_eq_false h.disabled (hs.enabled.2 hne)
  have hone : dadp.refs = 1 := by
    rw [(((dpaNewIf_yields s.dadp).of_run hnew).2.2.2 dif rfl).refs, hs.refs, hdifs]
    rfl
  rw [ifaceExec, if_neg (not_not.2 ⟨h.found, h.ringId⟩), run_regEnter_open h.notFull hnew,
    h.disabled] at hexec
  change (if (driver.dpaReg true first true s.dev).1 = true then
      some ⟨dadp, s.difs ++ [dif], memory, (driver.dpaReg true first true s.dev).2⟩
    else destructorLocked driver true pools last up dif
      ⟨dadp, s.difs, memory, (driver.dpaReg true first true s.dev).2⟩) = some s' at hexec
  constructor
  · rintro ⟨hup, halters⟩
    rw [dpaReg_on hup halters, if_pos rfl] at hexec
    cases hexec
    exact ⟨hone, by rw [hdifs]; rfl, rfl⟩
  · intro hnot
    obtain ⟨hfails, hkeep⟩ := dpaReg_fails hnot
    rw [if_neg (ne_true_of_eq_false hfails)] at hexec
    obtain ⟨hdifs', hrefs, hlast, -⟩ := destructorLocked_eq hexec
    obtain ⟨hoff, hpromisc⟩ := hlast hone.le
    refine ⟨?_, hdifs'.trans hdifs, hoff, ?_⟩
    · rw [hrefs]
      dsimp only
      rw [hone]
      rfl
    · rw [hpromisc]
      dsimp only
      rw [hkeep]

theorem register_early (hs : s.Counted) {found : Bool} {ringId : ℕ}
    (h : ¬CallsBack pools bufSize s found ringId) {first last : RegEnv} {up : Bool}
    (hexec : ifaceExec driver true pools bufSize s (.register found ringId first last up) = some s') :
    s'.dev = s.dev ∧ s'.Counted := by
  rw [ifaceExec] at hexec
  by_cases hstart : found = true ∧ ringIdOk s.dadp ringId = true
  swap
  · rw [if_pos hstart] at hexec
    cases hexec
    exact ⟨rfl, hs⟩
  rw [if_neg (not_not.2 hstart)] at hexec
  obtain ⟨⟨⟨point, dadp⟩, memory⟩, henter, hrest⟩ := Option.bind_eq_some_iff.1 hexec
  obtain ⟨-, rfl, rfl, -⟩ | ⟨hopen, dif, rfl, hnew⟩ := regEnter_cases henter
  · cases hrest
    exact ⟨rfl, hs.refs, hs.enabled⟩
  obtain ⟨-, -, hnone, hsome⟩ := (dpaNewIf_yields s.dadp).of_run hnew
  cases dif with
  | none =>
    cases hrest
    exact ⟨rfl, (hnone rfl).1.trans hs.refs, hs.enabled⟩
  | some dif =>
    have hon : s.dev.enabled = true := by
      by_contra hoff
      exact h ⟨hstart.1, hstart.2, hopen, Bool.eq_false_iff.2 hoff, dif, dadp, memory, hnew⟩
    have hrefs := (hsome dif rfl).refs
    rw [hon] at hrest
    dsimp only at hrefs
    cases hrest
    refine ⟨rfl, ?_, ?_⟩
    · simp [hrefs, hs.refs]
    · simp [hon]

theorem register_step (hs : s.Counted) (hsum : s.dev.promisc = if s.dev.enabled then 1 else 0)
    {found : Bool} {ringId : ℕ} {first last : RegEnv} {up : Bool}
    (hexec : ifaceExec driver true pools bufSize s (.register found ringId first last up) = some s') :
    s'.Counted ∧
      (KeepsBalance s s' ↔ Settles driver pools bufSize s (.register found ringId first last up)) := by
  by_cases hcalls : CallsBack pools bufSize s found ringId
  swap
  · obtain ⟨hdev, hs'⟩ := register_early hs hcalls hexec
    exact ⟨hs', iff_of_true (.of_dev hsum hdev) fun h ↦ absurd h hcalls⟩
  obtain ⟨hok, hfails⟩ := hcalls.step hs hexec
  have hdifs : s.difs = [] := by
    by_contra hne
    exact ne_true_of_eq_false hcalls.disabled (hs.enabled.2 hne)
  rw [hcalls.disabled, if_neg Bool.false_ne_true] at hsum
  by_cases halters : s.dev.up = true ∧ driver.alters first s.dev.up = true
  · obtain ⟨hrefs, hlen, hdev⟩ := hok halters
    refine ⟨⟨by rw [hrefs, hlen]; rfl, ?_⟩, iff_of_true ⟨?_, fun hsame ↦ ?_⟩ fun _ ↦ .inl halters⟩
    · rw [hdev]
      exact iff_of_true rfl (List.ne_nil_of_length_pos (by omega))
    · rw [hdev, if_pos rfl, hsum, zero_add]
    · rw [hsame, hdifs] at hlen
      cases hlen
  · obtain ⟨hrefs, hnil, hoff, hpromisc⟩ := hfails halters
    rw [hsum, zero_sub] at hpromisc
    refine ⟨⟨by rw [hrefs, hnil]; rfl, ?_⟩, fun hkeeps _ ↦ .inr ?_, fun hsettles ↦ ?_⟩
    · rw [hoff, hnil]
      exact iff_of_false Bool.false_ne_true fun h ↦ h rfl
    · have hzero := hkeeps.sum
      rw [hoff, hpromisc] at hzero
      by_contra hlowers
      rw [if_pos (Bool.eq_true_of_not_eq_false hlowers)] at hzero
      exact absurd hzero (by decide)
    · have hlast := (hsettles hcalls).resolve_left halters
      rw [hlast] at hpromisc
      refine ⟨?_, fun _ ↦ ?_⟩
      · rw [hoff, hpromisc]
        rfl
      · rw [hpromisc, hsum]
        rfl

theorem unregister_step (hs : s.Counted) (hsum : s.dev.promisc = if s.dev.enabled then 1 else 0)
    {k : ℕ} {last : RegEnv} {up : Bool}
    (hexec : ifaceExec driver true pools bufSize s (.unregister k last up) = some s') :
    s'.Counted ∧ (KeepsBalance s s' ↔ Settles driver pools bufSize s (.unregister k last up)) := by
  rw [ifaceExec] at hexec
  cases hk : s.difs[k]? with
  | none =>
    rw [hk] at hexec
    cases hexec
    refine ⟨hs, iff_of_true (.of_dev hsum rfl) fun hone hzero ↦ ?_⟩
    rw [hzero, List.getElem?_eq_none_iff, hone] at hk
    exact absurd hk (by decide)
  | some dif =>
    rw [hk] at hexec
    obtain ⟨s₁, hlocked, hret⟩ := Option.bind_eq_some_iff.1 hexec
    cases hret
    obtain ⟨hlt, -⟩ := List.getElem?_eq_some_iff.1 hk
    obtain ⟨-, hrefs, hlast, hmore⟩ := destructorLocked_eq hlocked
    have hlen := List.length_eraseIdx_of_lt hlt
    have hcount := hs.refs
    have hne : s.difs.eraseIdx k ≠ s.difs := fun heq ↦ by
      rw [heq] at hlen
      omega
    have hon : s.dev.enabled = true := hs.enabled.2 (List.ne_nil_of_length_pos (by omega))
    by_cases hone : s.difs.length = 1
    · obtain ⟨hoff, hpromisc⟩ := hlast (by omega)
      have hnil : s.difs.eraseIdx k = [] := List.length_eq_zero_iff.1 (by omega)
      rw [hsum, if_pos hon] at hpromisc
      refine ⟨⟨?_, ?_⟩, ?_⟩
      · dsimp only
        rw [hrefs, hnil, hcount, hone]
        rfl
      · dsimp only
        rw [hoff, hnil]
        exact iff_of_false Bool.false_ne_true fun h ↦ h rfl
      · constructor
        · intro hkeeps _ _
          have hzero := hkeeps.sum
          dsimp only at hzero
          rw [hoff, hpromisc] at hzero
          by_contra halters
          rw [if_neg halters] at hzero
          exact absurd hzero (by decide)
        · intro hsettles
          have halters := hsettles hone (by omega)
          rw [halters] at hpromisc
          refine ⟨?_, fun hsame ↦ absurd hsame hne⟩
          dsimp only
          rw [hoff, hpromisc]
          rfl
    · have hdev := hmore (by omega)
      refine ⟨⟨?_, ?_⟩, iff_of_true ⟨?_, fun hsame ↦ absurd hsame hne⟩ fun h ↦ absurd h hone⟩
      · dsimp only
        omega
      · dsimp only
        rw [hdev]
        exact iff_of_true hon (List.ne_nil_of_length_pos (by omega))
      · dsimp only
        rw [hdev]
        exact hsum

theorem ifaceExec_step (hs : s.Counted) (hsum : s.dev.promisc = if s.dev.enabled then 1 else 0)
    {c : IfaceOp} (hexec : ifaceExec driver true pools bufSize s c = some s') :
    s'.Counted ∧ (KeepsBalance s s' ↔ Settles driver pools bufSize s c) := by
  cases c with
  | link up =>
    cases hexec
    exact ⟨⟨hs.refs, hs.enabled⟩, iff_of_true ⟨hsum, fun _ ↦ rfl⟩ trivial⟩
  | register found ringId first last up => exact register_step hs hsum hexec
  | unregister k last up => exact unregister_step hs hsum hexec

/-- Whatever the pools are and whatever the drivers meet with: the promiscuity is in balance after
every call of a run if, and only if, every call settles. -/
theorem promisc_balanced_iff (driver : NicDriver) (pools : PoolId → DpaObjPool)
    (bufSize nrx ndesc : ℕ) (memory : PoolMemory) (up : Bool) {cs : List IfaceOp} {s' : Iface}
    (hrun : run (ifaceExec driver true pools bufSize) cs (Iface.start nrx ndesc memory up) = some s') :
    (∀ cs₁ c cs₂ s₁ s₂, cs = cs₁ ++ c :: cs₂ →
      run (ifaceExec driver true pools bufSize) cs₁ (Iface.start nrx ndesc memory up) = some s₁ →
      ifaceExec driver true pools bufSize s₁ c = some s₂ → KeepsBalance s₁ s₂) ↔
    Throughout (ifaceExec driver true pools bufSize) (Settles driver pools bufSize) cs
      (Iface.start nrx ndesc memory up) := by
  have hkept : ∀ cs₁ s₁, Throughout (ifaceExec driver true pools bufSize)
      (Settles driver pools bufSize) cs₁ (Iface.start nrx ndesc memory up) →
      run (ifaceExec driver true pools bufSize) cs₁ (Iface.start nrx ndesc memory up) = some s₁ →
      s₁.Counted ∧ s₁.dev.promisc = if s₁.dev.enabled then 1 else 0 := by
    intro cs₁ s₁ hthrough hrun₁
    refine hthrough.preserves (P := fun s : Iface ↦
      s.Counted ∧ s.dev.promisc = if s.dev.enabled then 1 else 0) ?_ ⟨⟨rfl, ?_⟩, rfl⟩ hrun₁
    · rintro s c s₂ ⟨hs, hsum⟩ hsettles hexec
      obtain ⟨hs₂, hiff⟩ := ifaceExec_step hs hsum hexec
      exact ⟨hs₂, (hiff.2 hsettles).sum⟩
    · exact iff_of_false Bool.false_ne_true fun h ↦ h rfl
  constructor
  · intro hall
    by_contra hnot
    obtain ⟨cs₁, c, cs₂, s₁, rfl, hthrough, hrun₁, hsettles⟩ := exists_first hnot hrun
    obtain ⟨hs, hsum⟩ := hkept cs₁ s₁ hthrough hrun₁
    rw [run_append, hrun₁, Option.bind_some] at hrun
    obtain ⟨s₂, hexec, -⟩ := Option.bind_eq_some_iff.1 hrun
    exact hsettles ((ifaceExec_step hs hsum hexec).2.1 (hall cs₁ c cs₂ s₁ s₂ rfl hrun₁ hexec))
  · rintro hthrough cs₁ c cs₂ s₁ s₂ rfl hrun₁ hexec
    obtain ⟨hs, hsum⟩ := hkept cs₁ s₁ hthrough.left hrun₁
    exact (ifaceExec_step hs hsum hexec).2.2 (hthrough.next hrun₁)

section

variable (hp : SoundPools pools bufSize) {F : PoolId → Finset ℕ}
  (hrep : Represented pools s.memory F) (hlock : s.memory.locked = false) (hrefs : s.dadp.refs = 0)
  (hF : (F .ifPool).Nonempty) (hlen : ifLen s.dadp.numRxRings ≤ (pools .ifPool).objSize)
  (hen : Enough pools F s.dadp.numRxDescs s.dadp.numRxRings)

include hp hrep hlock hrefs hF hlen hen

theorem newIf_undone : ∃ dif rx memory,
    (dpaNewIf pools bufSize s.dadp).run (access pools) s.memory =
      some ((some dif, { s.dadp with refs := 1, rxRings := rx }), memory) ∧
    (dpaDestructorLocked pools { s.dadp with refs := 1, rxRings := rx } dif.va).run (access pools)
      memory = some ({ s.dadp with refs := 0, rxRings := rx }, s.memory) := by
  obtain ⟨x, rx, hnew, hfree, hfilled, -⟩ :=
    run_dpaNewIf_first hp hrep hlock hF hlen (by omega) hen
  have hx := (hrep .ifPool).range x ((hfree .ifPool).2 x (by simp))
  have hdestroy := run_destructor_last hp (s := s.memory.takeAll fun p ↦
      PoolMemory.only .ifPool [x] p ++ ringGrants pools rx (List.range s.dadp.numRxRings) p)
    { s.dadp with refs := 1, rxRings := rx } hlock (fun j hj ↦ (hfilled j hj).pointer) le_rfl
    ⟨hx.1, hx.2, rfl⟩
  rw [hrep.putAll_takeAll hfree (returned_perm hrep hfree.right)] at hdestroy
  rw [hrefs] at hnew
  exact ⟨_, rx, _, hnew, hdestroy⟩

variable (hnrx : 0 < s.dadp.numRxRings) (hoff : s.dev.enabled = false) {k : ℕ}
  (hring : ringIdOk s.dadp k = true)

include hnrx hoff hring

/-- The first registration of an interface comes to the callback: it is done if the callback succeeds,
and undone otherwise. -/
theorem register_runs (first last : RegEnv) (up : Bool) :
    CallsBack pools bufSize s true k ∧ ∃ dif rx memory,
      (dpaDestructorLocked pools { s.dadp with refs := 1, rxRings := rx } dif.va).run (access pools)
        memory = some ({ s.dadp with refs := 0, rxRings := rx }, s.memory) ∧
      ifaceExec driver true pools bufSize s (.register true k first last up) =
        if (driver.dpaReg true first true s.dev).1 = true then
          some ⟨{ s.dadp with refs := 1, rxRings := rx }, s.difs ++ [dif], memory,
            (driver.dpaReg true first true s.dev).2⟩
        else
          some ⟨{ s.dadp with refs := 0, rxRings := rx }, s.difs, s.memory, (driver.dpaReg true last
            false { (driver.dpaReg true first true s.dev).2 with up := up }).2⟩ := by
  have hopen : s.dadp.refs ≠ s.dadp.numRxRings := by omega
  obtain ⟨dif, rx, memory, hnew, hdestroy⟩ := newIf_undone hp hrep hlock hrefs hF hlen hen
  refine ⟨⟨rfl, hring, hopen, hoff, dif, _, memory, hnew⟩, dif, rx, memory, hdestroy, ?_⟩
  rw [ifaceExec, if_neg (not_not.2 ⟨rfl, hring⟩), run_regEnter_open hopen hnew, hoff]
  change (if (driver.dpaReg true first true s.dev).1 = true then _ else
    destructorLocked driver true pools last up dif
      ⟨_, s.difs, memory, (driver.dpaReg true first true s.dev).2⟩) = _
  rw [destructorLocked]
  dsimp only
  rw [hdestroy]
  rfl

end

end

section

variable {a : DpaMemAllocator} (hc : Crowded a)

def noTrouble : RegEnv := ⟨true, true, true⟩

def noPromisc : RegEnv := ⟨true, true, false⟩

include hc in
theorem crowded_register (driver : NicDriver) (rx : ℕ → RxRing) (dev : NetDevice)
    (hoff : dev.enabled = false) (first last : RegEnv) (up : Bool) :
    CallsBack a.pools (dpaParamInit crowded).bufSize ⟨⟨0, 1, 256, rx⟩, [], ⟨a.words, false⟩, dev⟩
        true 0 ∧ ∃ dif rx' memory,
      (dpaDestructorLocked a.pools ⟨1, 1, 256, rx'⟩ dif.va).run (access a.pools) memory =
        some (⟨0, 1, 256, rx'⟩, ⟨a.words, false⟩) ∧
      ifaceExec driver true a.pools (dpaParamInit crowded).bufSize
          ⟨⟨0, 1, 256, rx⟩, [], ⟨a.words, false⟩, dev⟩ (.register true 0 first last up) =
        if (driver.dpaReg true first true dev).1 = true then
          some ⟨⟨1, 1, 256, rx'⟩, [dif], memory, (driver.dpaReg true first true dev).2⟩
        else
          some ⟨⟨0, 1, 256, rx'⟩, [], ⟨a.words, false⟩, (driver.dpaReg true last false
            { (driver.dpaReg true first true dev).2 with up := up }).2⟩ := by
  have hlen : ifLen 1 ≤ ifLen 2 := by decide
  exact register_runs (s := ⟨⟨0, 1, 256, rx⟩, [], ⟨a.words, false⟩, dev⟩) hc.sound hc.represented rfl
    rfl hc.ifs_nonempty (hlen.trans hc.ifFits) hc.enough Nat.one_pos hoff rfl first last up

end

/-- A registration of an interface that is down leaves the sum at -1. -/
theorem down_unbalanced : ∃ a, dpaMemInit farPages id (dpaParamInit crowded) = some a ∧
    ∃ s', ifaceExec .igb true a.pools (dpaParamInit crowded).bufSize
        (Iface.start 1 256 ⟨a.words, false⟩ false) (.register true 0 noTrouble noTrouble false) =
        some s' ∧
      s'.dev.enabled = false ∧ s'.dev.promisc = -1 := by
  obtain ⟨a, ha, hc⟩ := crowded_loads
  obtain ⟨-, dif, rx, memory, -, hexec⟩ := crowded_register hc .igb
    (dpaAttach 1 256).dadp.rxRings ⟨false, false, 0⟩ rfl noTrouble noTrouble false
  exact ⟨a, ha, _, hexec, rfl, rfl⟩

/-- A registration whose callback fails, one that succeeds, and the end of it. -/
def comesAndGoes : List IfaceOp :=
  [.register true 0 noPromisc noPromisc true, .register true 0 noTrouble noTrouble true,
    .unregister 0 noTrouble true]

theorem promisc_balanced_iff_crowded : ∃ a,
    dpaMemInit farPages id (dpaParamInit crowded) = some a ∧
    ∃ s', run (ifaceExec .bnx2 true a.pools (dpaParamInit crowded).bufSize) comesAndGoes
        (Iface.start 1 256 ⟨a.words, false⟩ true) = some s' ∧ s'.difs = [] ∧ s'.dev.promisc = 0 ∧
      ∀ cs₁ c cs₂ s₁ s₂, comesAndGoes = cs₁ ++ c :: cs₂ →
        run (ifaceExec .bnx2 true a.pools (dpaParamInit crowded).bufSize) cs₁
          (Iface.start 1 256 ⟨a.words, false⟩ true) = some s₁ →
        ifaceExec .bnx2 true a.pools (dpaParamInit crowded).bufSize s₁ c = some s₂ →
        KeepsBalance s₁ s₂ := by
  obtain ⟨a, ha, hc⟩ := crowded_loads
  obtain ⟨-, _, rx, _, -, hfails⟩ := crowded_register hc .bnx2
    (dpaAttach 1 256).dadp.rxRings ⟨true, false, 0⟩ rfl noPromisc noPromisc true
  obtain ⟨-, dif, rx', memory, hdestroy, hcomes⟩ := crowded_register hc .bnx2
    rx ⟨true, false, 0⟩ rfl noTrouble noTrouble true
  have hgoes : ifaceExec .bnx2 true a.pools (dpaParamInit crowded).bufSize
      ⟨⟨1, 1, 256, rx'⟩, [dif], memory, ⟨true, true, 1⟩⟩ (.unregister 0 noTrouble true) =
      some ⟨⟨0, 1, 256, rx'⟩, [], ⟨a.words, false⟩, ⟨true, false, 0⟩⟩ := by
    rw [ifaceExec]
    change ((destructorLocked .bnx2 true a.pools noTrouble true dif _).bind _) = _
    rw [destructorLocked]
    dsimp only
    rw [hdestroy]
    rfl
  have hrun : run (ifaceExec .bnx2 true a.pools (dpaParamInit crowded).bufSize) comesAndGoes
      (Iface.start 1 256 ⟨a.words, false⟩ true) = some _ :=
    (run_cons hfails).trans ((run_cons hcomes).trans ((run_cons hgoes).trans rfl))
  refine ⟨a, ha, _, hrun, rfl, rfl, ?_⟩
  refine (promisc_balanced_iff .bnx2 a.pools _ 1 256 ⟨a.words, false⟩ true hrun).2 ?_
  refine ⟨fun _ ↦ .inr rfl, fun s₁ hs₁ ↦ ⟨fun _ ↦ .inl ?_, fun s₂ hs₂ ↦ ⟨fun _ _ ↦ rfl, fun _ _ ↦ trivial⟩⟩⟩
  obtain rfl := Option.some.inj (hfails.symm.trans hs₁)
  exact ⟨rfl, rfl⟩

end Dpa.Driver
