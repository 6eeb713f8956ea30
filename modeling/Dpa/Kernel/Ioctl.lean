import Dpa.Driver.RxStats
import Dpa.Kernel.Lifecycle
import Dpa.Kernel.LockOrder
import Dpa.Kernel.UserView
import Dpa.Library.Refinement

namespace Dpa.Kernel.Ioctl

open Driver Library MachineWord

inductive Errno
  | nodev
  | inval
  | nomem
  | busy
  | nxio
  | opnotsupp
  | notty
  | fault
  /-- what the driver's callback answers -/
  | driver (code : ℕ)
  deriving DecidableEq

/-- `struct ioc_para`. In its union, `offset` and `num_bufs` are the first word of `rx_stats`, and
`queue_id` and `buf_size` the second one. -/
structure IocPara where
  ifName : String
  memSize : ℕ
  numRxSlots : ℕ
  numRxQueues : ℕ
  devModel : ℕ
  rxStats : DpaRxStats

def IocPara.queueId (para : IocPara) : ℕ := para.rxStats.opCode.toNat

def zeroPara : IocPara := ⟨"", 0, 0, 0, 0, ⟨0, 0, false, 0, 0, 0, 0, 0⟩⟩

def dpaIocMagic : ℕ := 0x4e
def sizeofIocPara : ℕ := 96

def iocDir (cmd : ℕ) : ℕ := cmd >>> 30
def iocType (cmd : ℕ) : ℕ := cmd >>> 8 &&& 0xff

def iowr (nr : ℕ) : ℕ := 3 <<< 30 ||| sizeofIocPara <<< 16 ||| dpaIocMagic <<< 8 ||| nr
def io (nr : ℕ) : ℕ := dpaIocMagic <<< 8 ||| nr

inductive Request
  | getInfo
  | regIf
  | unregIf
  | rxSync
  | getRxStats
  | other
  deriving DecidableEq

def request (cmd : ℕ) : Request :=
  if cmd = iowr 0xb0 then .getInfo
  else if cmd = iowr 0xb1 then .regIf
  else if cmd = io 0xb2 then .unregIf
  else if cmd = io 0xb3 then .rxSync
  else if cmd = iowr 0xb4 then .getRxStats
  else .other

structure RingSel extends DpaPriv where
  ringId : ℕ

/-- `struct dpa_priv`; an interface is named by its place among `netdevs`. -/
structure FilePriv extends RingSel where
  dif : DpaIf
  netdev : ℕ

/-- A `net_device` with its adapter, and the references to it and to its driver's module that are
held. -/
structure Netdev where
  dadp : DpaAdapter
  enabled : Bool
  exclLocks : Bool
  devModel : ℕ
  netdevRefs : ℤ
  moduleRefs : ℤ

def Netdev.deleting (dev : Netdev) : Bool := dev.dadp.refs = 0 && dev.enabled

def Netdev.pollAdapter (dev : Netdev) : PollAdapter := ⟨dev.enabled, dev.exclLocks, dev.dadp.numRxRings⟩

/-- A callback that fails may leave the enable flag set. -/
structure RegError where
  errno : ℕ
  enabled : Bool

structure Surroundings where
  /-- what `dpa_acquire_netdev` meets with, and the interface that the name stands for -/
  lookup : Lookup
  netdev : ℕ
  kmalloc : Bool
  reg : Option RegError
  nic : NicStats
  totals : ℕ → RxTotals
  carrierOk : Bool
  now : ℕ
  accessOk : Bool
  copyFromUser : Bool
  copyToUser : Bool

structure CharDev where
  memory : PoolMemory
  netdevs : List Netdev
  files : List (Option FilePriv)

def CharDev.modify (d : CharDev) (n : ℕ) (f : Netdev → Netdev) : CharDev :=
  { d with netdevs := d.netdevs.modify n f }

def CharDev.hold (d : CharDev) (n : ℕ) (netdevRefs moduleRefs : ℤ) : CharDev :=
  d.modify n fun dev ↦
    { dev with
      netdevRefs := dev.netdevRefs + netdevRefs
      moduleRefs := dev.moduleRefs + moduleRefs }

def CharDev.setFile (d : CharDev) (k : ℕ) (priv : Option FilePriv) : CharDev :=
  { d with files := d.files.set k priv }

def dpaAcquireNetdev (env : Surroundings) (d : CharDev) : Except Errno Netdev × CharDev :=
  match d.netdevs[env.netdev]? with
  | none => (.error .nodev, d)
  | some dev =>
    if env.lookup = .noDevice then (.error .nodev, d)
    else
      let d := d.hold env.netdev 1 0
      if env.lookup = .found then (.ok dev, d.hold env.netdev 0 1)
      else (.error .inval, d.hold env.netdev (-1) 0)

def dpaReleaseNetdev (n : ℕ) (d : CharDev) : CharDev := d.hold n (-1) (-1)

def dpaSetRingId (max ringIdField : ℕ) : Except Errno RingSel :=
  let ringId := ringIdField &&& ringIdMask
  if ringId ≥ max then .error .inval
  else if ringIdField &&& dpaRingFlagAll ≠ 0 then .ok ⟨⟨0, dpaRingFlagAll⟩, ringIdField⟩
  else .ok ⟨⟨ringId, ringId + 1⟩, ringIdField⟩

/-- What a call answers: the error, `struct ioc_para` where it is written back, and the rings it has
synchronised. -/
structure Reply where
  error : Option Errno
  para : Option IocPara
  synced : List ℕ

section

variable (pools : PoolId → DpaObjPool) (bufSize : ℕ)

def CharDev.perform {α : Type} (program : PoolProgram α) (d : CharDev) : Option (α × CharDev) :=
  (program.run (access pools) d.memory).map fun a ↦ (a.1, { d with memory := a.2 })

/-- `dpa_destructor_locked`, less the sleep: the adapter and the enable flag it leaves. -/
def destructorLocked (dadp : DpaAdapter) (enabled : Bool) (dif : DpaIf) :
    PoolProgram (DpaAdapter × Bool) := do
  let dadp ← dpaDestructorLocked pools dadp dif.va
  pure (dadp, if dadp.refs ≤ 0 then false else enabled)

/-- `dpa_reg_if` under `reg_lock`, from `dpa_set_ring_id` on: what it returns, and the adapter and the
enable flag it leaves. -/
def regLocked (env : Surroundings) (queueId : ℕ) (dadp : DpaAdapter) (enabled : Bool) :
    PoolProgram (Except Errno FilePriv × DpaAdapter × Bool) :=
  match dpaSetRingId dadp.numRxRings queueId with
  | .error e => pure (.error e, dadp, enabled)
  | .ok sel =>
    let priv (dif : DpaIf) : FilePriv := { sel with dif := dif, netdev := env.netdev }
    do
      let (point, dadp) ← regEnter pools bufSize enabled dadp
      match point with
      | .full => pure (.error .busy, dadp, enabled)
      | .noObjects => pure (.error .nomem, dadp, enabled)
      | .joins dif => pure (.ok (priv dif), dadp, enabled)
      | .enables dif =>
        match env.reg with
        | none => pure (.ok (priv dif), dadp, true)
        | some err => do
          let (dadp, enabled) ← destructorLocked pools dadp err.enabled dif
          pure (.error (.driver err.errno), dadp, enabled)

/-- `dpa_reg_if`. Nobody else runs meanwhile, so that the loop that waits for the end of a destructor
finds every time what it finds first. -/
def dpaRegIf (env : Surroundings) (queueId : ℕ) (d : CharDev) :
    Option FilePriv → Option (Except Errno FilePriv × CharDev)
  | some priv =>
    match d.netdevs[priv.netdev]? with
    | none => some (.error .nodev, d)
    | some dev => some ((dpaSetRingId dev.dadp.numRxRings queueId).map fun sel ↦
        { priv with toRingSel := sel }, d)
  | none =>
    match dpaAcquireNetdev env d with
    | (.error e, d) => some (.error e, d)
    | (.ok dev, d) =>
      if ¬env.kmalloc then some (.error .nomem, dpaReleaseNetdev env.netdev d)
      else if dev.deleting then some (.error .busy, dpaReleaseNetdev env.netdev d)
      else do
        let ((r, dadp, enabled), d) ←
          d.perform pools (regLocked pools bufSize env queueId dev.dadp dev.enabled)
        let d := d.modify env.netdev fun dev ↦ { dev with dadp := dadp, enabled := enabled }
        match r with
        | .error e => some (.error e, dpaReleaseNetdev env.netdev d)
        | .ok priv => some (.ok priv, d)

def dpaDestructor (priv : FilePriv) (d : CharDev) : Option CharDev :=
  match d.netdevs[priv.netdev]? with
  | none => some d
  | some dev => do
    let ((dadp, enabled), d) ← d.perform pools (destructorLocked pools dev.dadp dev.enabled priv.dif)
    let d := d.modify priv.netdev fun dev ↦ { dev with dadp := dadp, enabled := enabled }
    some (dpaReleaseNetdev priv.netdev d)

/-- `dpa_release`, which leaves a place for another `open`. -/
def dpaRelease (k : ℕ) (d : CharDev) : Option FilePriv → Option CharDev
  | none => some d
  | some priv => (dpaDestructor pools priv d).map fun d ↦ d.setFile k none

end

/-- What `DIOCGETINFO`, `DIOCREGIF` and `DIOCGETRXSTATS` tell of an interface. -/
def IocPara.describe (para : IocPara) (dev : Netdev) : IocPara :=
  { para with
    numRxQueues := u16 dev.dadp.numRxRings
    numRxSlots := u32 dev.dadp.numRxDescs
    devModel := dev.devModel }

section

variable (a : DpaMemAllocator) (c : Config)

def getInfo (env : Surroundings) (para : IocPara) (d : CharDev) : Reply × CharDev :=
  let para :=
    { para with
      memSize := a.totalSize
      numRxQueues := 0
      numRxSlots := 0
      rxStats :=
        { para.rxStats with queueId := .ofNat 32 c.numBufs, opCode := .ofNat 32 c.bufSize } }
  if para.ifName = "" then (⟨none, some para, []⟩, d)
  else match dpaAcquireNetdev env d with
    | (.error e, d) => (⟨some e, some para, []⟩, d)
    | (.ok dev, d) => (⟨none, some (para.describe dev), []⟩, dpaReleaseNetdev env.netdev d)

def IocPara.registered (para : IocPara) (dif : DpaIf) : Option Netdev → IocPara
  | none => para
  | some dev =>
    { para.describe dev with
      memSize := a.totalSize
      rxStats := { para.rxStats with queueId := .ofNat 32 (regOffset a.pools dif) } }

def regIf (env : Surroundings) (para : IocPara) (k : ℕ) (priv : Option FilePriv) (d : CharDev) :
    Option (Reply × CharDev) :=
  (dpaRegIf a.pools c.bufSize env para.queueId d priv).map fun (r, d) ↦
    match r with
    | .error e => (⟨some e, some para, []⟩, d)
    | .ok priv =>
      (⟨none, some (para.registered a priv.dif d.netdevs[priv.netdev]?), []⟩, d.setFile k (some priv))

def unregIf (para : IocPara) (k : ℕ) (priv : Option FilePriv) (d : CharDev) :
    Option (Reply × CharDev) :=
  match priv with
  | none => some (⟨some .nxio, some para, []⟩, d)
  | some priv => (dpaDestructor a.pools priv d).map fun d ↦
      (⟨none, some para, []⟩, d.setFile k none)

/-- The rings that `DIOCRXSYNC` and `dpa_poll` go through for a file. -/
def CharDev.rings (d : CharDev) (priv : FilePriv) : List ℕ :=
  match d.netdevs[priv.netdev]? with
  | none => []
  | some dev =>
    List.range' priv.rfirst (pollMaxRx dev.pollAdapter priv.toDpaPriv - priv.rfirst)

def rxSync (para : IocPara) (priv : Option FilePriv) (d : CharDev) : Reply × CharDev :=
  match priv with
  | none => (⟨some .nxio, some para, []⟩, d)
  | some priv => (⟨none, some para, d.rings priv⟩, d)

def getRxStats (env : Surroundings) (para : IocPara) (d : CharDev) : Reply × CharDev :=
  let para :=
    { para with
      memSize := a.totalSize
      numRxQueues := 0
      numRxSlots := 0
      rxStats := { para.rxStats with packets := 0, bytes := 0, drops := 0, ts := 0 } }
  if para.ifName = "" then (⟨none, some para, []⟩, d)
  else match dpaAcquireNetdev env d with
    | (.error e, d) => (⟨some e, some para, []⟩, d)
    | (.ok dev, d) =>
      let para := para.describe dev
      let device : StatsDevice :=
        ⟨dev.dadp.numRxRings, env.totals, env.carrierOk, dev.enabled, env.now⟩
      let d := dpaReleaseNetdev env.netdev d
      match dpaIoctlGetRxStats env.nic device para.rxStats with
      | none =>
        (⟨some .inval, some { para with rxStats := { para.rxStats with enabled := dev.enabled } }, []⟩,
          d)
      | some rxStats => (⟨none, some { para with rxStats := rxStats }, []⟩, d)

/-- `dpa_ioctl` before its `switch`: whether it fails there. -/
def refused (env : Surroundings) (cmd : ℕ) (arg : Option IocPara) : Option Errno :=
  if iocType cmd ≠ dpaIocMagic then some .notty
  else if iocDir cmd ≠ 0 ∧ ¬env.accessOk then some .fault
  else if arg.isSome ∧ ¬env.copyFromUser then some .fault
  else none

def copyBack (env : Surroundings) (arg : Option IocPara) (r : Reply) : Reply :=
  if arg.isNone then { r with para := none }
  else if env.copyToUser then r
  else { r with error := some .fault, para := none }

/-- The `switch` of `dpa_ioctl`. -/
def dispatch (env : Surroundings) (para : IocPara) (k : ℕ) (priv : Option FilePriv) (d : CharDev) :
    Request → Option (Reply × CharDev)
  | .getInfo => some (getInfo a c env para d)
  | .regIf => regIf a c env para k priv d
  | .unregIf => unregIf a para k priv d
  | .rxSync => some (rxSync para priv d)
  | .getRxStats => some (getRxStats a env para d)
  | .other => some (⟨some .opnotsupp, some para, []⟩, d)

def dpaIoctl (env : Surroundings) (cmd : ℕ) (arg : Option IocPara) (k : ℕ) (priv : Option FilePriv)
    (d : CharDev) : Option (Reply × CharDev) :=
  match refused env cmd arg with
  | some e => some (⟨some e, none, []⟩, d)
  | none => (dispatch a c env (arg.getD zeroPara) k priv d (request cmd)).map fun r ↦
      (copyBack env arg r.1, r.2)

inductive FileOp
  | ioctl (env : Surroundings) (cmd : ℕ) (arg : Option IocPara)
  | close

/-- A call on file `e.1`; it does nothing where there is none. -/
def fileExec (d : CharDev) (e : ℕ × FileOp) : Option (Reply × CharDev) :=
  match d.files[e.1]? with
  | none => some (⟨none, none, []⟩, d)
  | some priv =>
    match e.2 with
    | .ioctl env cmd arg => dpaIoctl a c env cmd arg e.1 priv d
    | .close => (dpaRelease a.pools e.1 d priv).map fun d ↦ (⟨none, none, []⟩, d)

end

/-- An interface as the drivers attach it; all of them ask for a lock for every queue. -/
def attach (nrx ndesc devModel : ℕ) : Netdev := ⟨(dpaAttach nrx ndesc).dadp, false, true, devModel, 0, 0⟩

/-- The module once it is loaded, with interfaces of these ring counts, descriptor counts and models
and that many open files. -/
def CharDev.start (a : DpaMemAllocator) (l : List (ℕ × ℕ × ℕ)) (files : ℕ) : CharDev :=
  ⟨⟨a.words, false⟩, l.map fun x ↦ attach x.1 x.2.1 x.2.2, List.replicate files none⟩

section

variable {pools : PoolId → DpaObjPool} {a : DpaMemAllocator} {c : Config} {bufSize n k i : ℕ}
  {d d' : CharDev} {env : Surroundings} {para : IocPara} {old : Option FilePriv}

end

end Dpa.Kernel.Ioctl
