import Dpa.Driver.Capacity
import Dpa.Kernel.Sessions

namespace Dpa.Driver

open Kernel Kernel.Ioctl Library MachineWord PoolMemory

def NicDriver.devModel : NicDriver → ℕ
  | igb => 1
  | ixgbe => 2
  | bnx2 => 3

def attachments (c : Kernel.Config) (l : List (ℕ × NicDriver)) : List (ℕ × ℕ × ℕ) :=
  l.map fun x ↦ (x.1, x.2.numRxDescs c.numRxDescs, x.2.devModel)

/-- The device is where its sessions say: every interface counts them and is on while it has one. -/
structure FollowsSessions (a : DpaMemAllocator) (d : CharDev) (t : Sessions) : Prop where
  files : d.files.map (Option.map FilePriv.session) = t
  counts : ∀ n (dev : Netdev), d.netdevs[n]? = some dev → dev.dadp.refs = t.users n ∧
    (dev.enabled = true ↔ 0 < t.users n) ∧ dev.netdevRefs = t.users n ∧ dev.moduleRefs = t.users n ∧
      t.users n ≤ dev.dadp.numRxRings
  idle : (∀ n, t.users n = 0) → d.memory = ⟨a.words, false⟩

section

variable {p : Params} {getFreePages : PoolId → ℕ → ℕ} {virtToPhys : ℕ → ℕ} {a : DpaMemAllocator}
  {l : List (ℕ × NicDriver)} {d : CharDev} {t : Sessions}

def RoomyInv (p : Params) (a : DpaMemAllocator) (l : List (ℕ × NicDriver)) (h : Host) : Prop :=
  HostInv a.pools (dpaParamInit p).bufSize ⟨a.words, false⟩
    (fun q ↦ Finset.Ico 2 (a.pools q).objTotal) h ∧ Attached (attachDims (dpaParamInit p) l) h

variable (hpages : Pages getFreePages (dpaParamInit p))
  (ha : dpaMemInit getFreePages virtToPhys (dpaParamInit p) = some a)
  (hlen : l.length ≤ (dpaParamInit p).numIfs) (hq : ∀ x ∈ l, x.1 ≤ (dpaParamInit p).numQueues)
  (hfit : (l.map fun x ↦ x.1 * x.2.numRxDescs (dpaParamInit p).numRxDescs).sum ≤
    numFreeBufs (dpaParamInit p))

include hpages ha hlen hq hfit in
theorem roomy : Roomy a.pools (dpaParamInit p).bufSize (attachDims (dpaParamInit p) l)
    (RoomyInv p a l) := by
  obtain ⟨hpools, -, hm⟩ := loaded_pools hpages ha
  rw [← sum_attachDims] at hfit
  constructor
  case step => exact fun h c hi ↦ capacity_step hpools hpages hm hlen hq hi.1 hi.2 hfit c
  case room =>
    exact fun h n r hi hn hopen ↦ capacity_room hpools hpages hm hlen hq hi.1 hi.2 hfit hn hopen
  case ready => exact fun h hi ↦ hi.1.ready
  case dims => exact fun h hi ↦ hi.2.dims

include hq in
theorem rings_le : ∀ x ∈ attachDims (dpaParamInit p) l, x.1 ≤ 0x1000 := by
  intro x hx
  obtain ⟨y, hy, rfl⟩ := List.mem_map.1 hx
  have hle := hq y hy
  have hnum := paramInit_numQueues p
  dsimp only
  omega

theorem serves_start (files : ℕ) : Serves a.pools (dpaParamInit p).bufSize
    (attachDims (dpaParamInit p) l) (RoomyInv p a l)
    (CharDev.start a (attachments (dpaParamInit p) l) files) (List.replicate files none) where
  host := by
    refine ⟨Host.start a (attachDims (dpaParamInit p) l), ⟨.start _, .start⟩, fun r hr ↦ ?_, rfl, ?_,
      fun n dev hn ↦ ?_⟩
    · obtain ⟨x, -, rfl⟩ := List.mem_map.1 hr
      exact attached_linked _ _ _ _
    · simp [CharDev.start, Host.start, attachments, attachDims]
    · have hnone : ∀ n, (CharDev.start a (attachments (dpaParamInit p) l) files).difs n = [] := by
        intro n
        refine List.flatMap_eq_nil_iff.2 fun f hf ↦ ?_
        rw [List.eq_of_mem_replicate hf]
        rfl
      rw [hnone]
      rw [CharDev.start, attachments, List.map_map, List.getElem?_map] at hn
      obtain ⟨x, hx, rfl⟩ := Option.map_eq_some_iff.1 hn
      refine ⟨[], ?_, .refl _, rfl, rfl⟩
      rw [Host.start, attachDims, List.map_map, List.getElem?_map, hx]
      rfl
  files := by
    rw [CharDev.start, List.map_replicate]
    rfl
  selected := by
    intro k priv hk
    rw [CharDev.start] at hk
    exact absurd (List.eq_of_mem_replicate (List.mem_of_getElem? hk)) (Option.some_ne_none _)

theorem follows_of_serves (hs : Serves a.pools (dpaParamInit p).bufSize (attachDims (dpaParamInit p) l)
    (RoomyInv p a l) d t) : FollowsSessions a d t := by
  obtain ⟨h, ⟨hi, hat⟩, -, hd⟩ := hs.host
  have husers : ∀ n difs, (d.difs n).Perm difs → t.users n = difs.length := by
    intro n difs hperm
    rw [← hs.files, ← length_difs]
    exact hperm.length_eq
  refine ⟨hs.files, fun n dev hn ↦ ?_, fun hnone ↦ ?_⟩
  · obtain ⟨difs, hreg, hperm, hnetdevRefs, hmoduleRefs⟩ := hd.netdev n dev hn
    have hmem := List.mem_of_getElem? hreg
    have hready := hi.ready _ hmem
    rw [husers n difs hperm]
    refine ⟨hready.refs, ?_, hnetdevRefs, hmoduleRefs, hat.open_le _ hmem⟩
    exact hready.enabled.trans List.length_pos_iff.symm
  · have hnil : ∀ q, (h.interfaces.flatMap fun r ↦ holding a.pools r q) = [] := by
      intro q
      refine List.flatMap_eq_nil_iff.2 fun r hr ↦ holding_nil ?_ q
      obtain ⟨n, hlt, rfl⟩ := List.mem_iff_getElem.1 hr
      have hn := List.getElem?_eq_getElem (hd.length.symm ▸ hlt : n < d.netdevs.length)
      obtain ⟨difs, hreg, hperm, -⟩ := hd.netdev n _ hn
      rw [List.getElem?_eq_getElem hlt] at hreg
      rw [Option.some.inj hreg, ← List.length_eq_zero_iff, ← husers n difs hperm]
      exact hnone n
    rw [hd.memory, hi.owned.memory]
    exact congrArg (takeAll ⟨a.words, false⟩) (funext hnil)

include hpages ha hlen hq hfit in
/-- Whatever the processes do with their files, the device answers as the table of their sessions
does, and is left where that says. -/
theorem device_implements_sessions (files : ℕ) (es : List (ℕ × FileOp)) :
    ∃ rs d, answers (fileExec a (dpaParamInit p)) es
        (CharDev.start a (attachments (dpaParamInit p) l) files) = some (rs, d) ∧
      rs.map Reply.outcome = (expected (Sessions.answer (attachDims (dpaParamInit p) l)) es
        (List.replicate files none)).1 ∧
      FollowsSessions a d (expected (Sessions.answer (attachDims (dpaParamInit p) l)) es
        (List.replicate files none)).2 := by
  have himpl := implements (roomy hpages ha hlen hq hfit) (rings_le hq)
  obtain ⟨rs, d, hrun, hout, hs⟩ := himpl.run (serves_start files) es
  exact ⟨rs, d, hrun, hout, follows_of_serves hs⟩

end

def allWell : Surroundings :=
  ⟨.found, 0, true, none, .igb ⟨0, 0⟩, fun _ ↦ ⟨0, 0⟩, true, 0, true, true, true⟩

def eth0 : IocPara := { zeroPara with ifName := "eth0" }

/-- Two files and an interface of one ring: the first gets it and synchronises it, the second does not
get it, and the first is closed. -/
def oneRing : List (ℕ × FileOp) :=
  [(0, .ioctl allWell (iowr 0xb1) (some eth0)), (0, .ioctl allWell (io 0xb3) none),
    (1, .ioctl allWell (iowr 0xb1) (some eth0)), (0, .close)]

theorem oneRing_expected : expected (Sessions.answer (attachDims (dpaParamInit ⟨1, 1, 256, 2048⟩)
    [(1, .igb)])) oneRing (List.replicate 2 none) =
      ([⟨none, []⟩, ⟨none, [0]⟩, ⟨some .busy, []⟩, ⟨none, []⟩], [none, none]) := by
  decide +kernel

theorem device_implements_sessions_oneRing : ∃ a,
    dpaMemInit farPages id (dpaParamInit ⟨1, 1, 256, 2048⟩) = some a ∧
    ∃ rs d, answers (fileExec a (dpaParamInit ⟨1, 1, 256, 2048⟩)) oneRing
        (CharDev.start a (attachments (dpaParamInit ⟨1, 1, 256, 2048⟩) [(1, .igb)]) 2) =
          some (rs, d) ∧
      rs.map Reply.outcome = [⟨none, []⟩, ⟨none, [0]⟩, ⟨some .busy, []⟩, ⟨none, []⟩] ∧
      FollowsSessions a d [none, none] := by
  obtain ⟨a, ha, -⟩ := dpaMemInit_eq ⟨1, 1, 256, 2048⟩ id (farPages_pages _)
  have hall := device_implements_sessions (l := [(1, .igb)]) (farPages_pages _) ha (by decide)
    (by decide) (by decide +kernel) 2 oneRing
  rw [oneRing_expected] at hall
  exact ⟨a, ha, hall⟩

end Dpa.Driver
