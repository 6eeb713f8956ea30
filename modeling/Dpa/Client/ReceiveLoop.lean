import Dpa.Driver.OpenFiles
import Mathlib.Data.Nat.Bitwise

namespace Dpa.Client

open Driver Kernel Kernel.Ioctl Library MachineWord

/-- What `raw_loop` sets of `recv_proc_info_t`; `dif` is the address of the interface object. -/
structure RecvProcInfo where
  fd : ℕ
  queueId : ℕ
  dif : ℤ

def RecvProcInfo.ring (info : RecvProcInfo) (fields : DpaIf) : ℤ := dpaRxRing info.dif fields info.queueId

section

variable (a : DpaMemAllocator) (c : Kernel.Config)

end

section

variable {a : DpaMemAllocator} {c : Kernel.Config} {dims : List (ℕ × ℕ)} {Inv : Host → Prop}
  {d d' : CharDev} {t : Sessions} {e : ℕ × FileOp} {es : List (ℕ × FileOp)} {r : Reply}
  {rs : List Reply} {k : ℕ} {env : Surroundings} {para para' : IocPara}
  (hr : Roomy a.pools c.bufSize dims Inv) (hle : ∀ x ∈ dims, x.1 ≤ 0x1000)

end

section

variable {p : Params} {getFreePages : PoolId → ℕ → ℕ} {virtToPhys : ℕ → ℕ} {a : DpaMemAllocator}
  {l : List (ℕ × NicDriver)} {d : CharDev} {priv : FilePriv} {dev : Netdev} {k : ℕ}

end

def goesOn : List (ℕ × FileOp) := [(1, .ioctl allWell (io 0xb3) none), (0, .close)]

end Dpa.Client
