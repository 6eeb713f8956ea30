import Dpa.Duplicator.Progress
import Dpa.Library.Resume

namespace Dpa.Duplicator

open Relation Function MachineWord Cyclic Kernel Library

variable {cfg : Config} {k r f d u i : ℕ} {seen : List Packet} {s : System} {c : Copy}

namespace System

/-- A consumer is killed and its successor enters `dup_loop`. -/
def restart (s : System) (i : ℕ) : System :=
  { s with
    consumer := update s.consumer i ⟨.wait, (s.queue i).ridx⟩
    record := { s.record with delivered := update s.record.delivered i [] } }

def after (s : System) (pre : ℕ → List Packet) : System :=
  { s with record := { s.record with delivered := fun i ↦ pre i ++ s.record.delivered i } }

end System

/-- The duplicator with consumers that may be killed at any time: `past` are their earlier lives,
`start` is where the present one began. -/
structure Restarting where
  system : System
  past : ℕ → List (Life Packet)
  start : ℕ → ℕ

namespace Restarting

def lives (s : Restarting) (i : ℕ) : List (Life Packet) :=
  ⟨s.start i, s.system.record.delivered i⟩ :: s.past i

def restart (s : Restarting) (i : ℕ) : Restarting where
  system := s.system.restart i
  past := update s.past i (s.lives i)
  start := update s.start i
    (s.start i + (s.system.record.delivered i).length - (s.system.unacked i).length)

end Restarting

inductive Restarting.Step (cfg : Config) : Restarting → Restarting → Prop
  | go (s : Restarting) (t : System) : Duplicator.Step cfg s.system t →
      Step cfg s { s with system := t }
  | restart (s : Restarting) (i : ℕ) : i < cfg.copies → Step cfg s (s.restart i)

/-- A step in which the consumer of copy `i` is not killed. -/
def Restarting.Spares (cfg : Config) (i : ℕ) (s t : Restarting) : Prop :=
  Restarting.Step cfg s t ∧ t.past i = s.past i

def Restarting.consume (s : Restarting) (i : ℕ) : Restarting :=
  { s with system := s.system.consume i }

theorem Layout.restart (h : Layout k r f d u c) {l : List Packet}
    (hl : c.delivered = l ++ c.unacked) :
    Layout k r f 0 u { c with delivered := l, consumer := ⟨.wait, c.queue.ridx⟩ } where
  queue := h.queue
  fits := h.fits
  widx := h.widx
  ridx := by
    rw [pos_zero h.queue.ridx_lt]
    exact h.queue.ridx
  read := Nat.zero_le _
  stands := rfl
  accepted := by
    have hd := h.read
    have hcut := between_append c k r (Nat.zero_le d) (show d ≤ f + u by omega)
    change c.accepted = l ++ c.between k r 0 (f + u)
    rw [hcut, ← List.append_assoc, ← h.unacked, ← hl]
    exact h.accepted
  drops := h.drops

theorem Layout.unacked_deliver (h : Layout k r f d u c) {j : Int32} {n : ℕ}
    (hj : j = Int32.ofNat d) (hd : d < n) (hn : n ≤ f) :
    Copy.unacked
      { c with
        delivered := c.delivered ++ [(c.slots c.consumer.ridx).view]
        consumer := ⟨.call (j + 1) (Int32.ofNat n), dupSlotIdxNext c.queue c.consumer.ridx⟩ } =
      c.unacked ++ [(c.slots c.consumer.ridx).view] := by
  rw [(h.deliver hj hd hn).unacked, h.unacked, between_append _ k r (Nat.zero_le d) (Nat.le_succ d)]
  congr 1
  rw [Copy.between, Nat.succ_sub (le_refl d), Nat.sub_self, h.ridx]
  rfl

/-- What a consumer gets anew it holds, until it gives everything back. -/
theorem Layout.unacked_consume (h : Layout k r f d u c) :
    ∃ x, c.consume.delivered = c.delivered ++ x ∧ c.consume.unacked <:+ c.unacked ++ x := by
  have hk := two_pow_le h.queue.bound
  have hf := h.fits
  unfold Copy.consume
  cases hpc : c.consumer.pc with
  | wait =>
    refine ⟨[], ?_⟩
    simp only [List.append_nil]
    split_ifs
    · exact ⟨rfl, List.suffix_rfl⟩
    · exact ⟨rfl, List.suffix_rfl⟩
  | call j v =>
    have hstands := h.stands
    rw [hpc] at hstands
    obtain ⟨hj, n, rfl, hdn, hnf⟩ := hstands
    simp only [hj, int32_ofNat_lt (show d < 2 ^ 31 by omega) (show n < 2 ^ 31 by omega)]
    by_cases hlt : d < n
    · rw [if_pos hlt, h.unacked_deliver rfl hlt hnf]
      exact ⟨_, rfl, List.suffix_rfl⟩
    · rw [if_neg hlt]
      obtain rfl : d = n := by omega
      rw [h.release.unacked, Copy.between, Nat.sub_zero]
      exact ⟨[], (List.append_nil _).symm, List.nil_suffix⟩

/-- The producer does not overwrite what the consumer may have to read again. -/
theorem unacked_produce (hl : Layout k r f d u (s.copyAt i)) (hno : NoOverwrite cfg s i) :
    (s.produce cfg).unacked i = s.unacked i := by
  have hs : SameReader s (s.produce cfg) := sameReader_produce s
  have hr : ((s.produce cfg).queue i).ridx = (s.queue i).ridx := (hs.queue i).1
  have hn : ((s.produce cfg).queue i).size = (s.queue i).size := (hs.queue i).2
  have hc : (s.produce cfg).consumer i = s.consumer i := congrFun hs.consumer i
  have hheld : ((s.produce cfg).copyAt i).held = (s.copyAt i).held := by
    simp only [Copy.held, System.copyAt, hr, hn, hc]
  have hle : (s.copyAt i).held ≤ (s.queue i).filled := by
    rw [hl.held, show (s.queue i).filled = f from hl.filled_eq]
    exact hl.read
  unfold System.unacked Copy.unacked
  rw [hheld]
  refine List.map_congr_left fun j hj ↦ congrArg DupSlot.view ?_
  have hkept := hno.produce j ((List.mem_range.1 hj).trans_le hle)
  simp only [System.copyAt, hr, hn]
  exact hkept

section

variable (s : System) (pre : ℕ → List Packet)

theorem after_produce : (s.after pre).produce cfg = (s.produce cfg).after pre := by
  unfold System.produce
  rw [show (s.after pre).producer.pc = s.producer.pc from rfl]
  cases s.producer.pc with
  | poll => rfl
  | take =>
    unfold System.take
    rw [apply_ite (System.after · pre), apply_ite (System.after · pre)]
    rfl
  | copy j =>
    unfold System.copy
    rw [apply_ite (System.after · pre), apply_ite (System.after · pre)]
    rfl
  | refill j =>
    unfold System.refill
    dsimp only
    rw [apply_ite (System.after · pre)]
    rfl
  | store j => rfl
  | publish j => rfl
  | refresh j => rfl
  | flush j =>
    unfold System.flush
    rw [apply_ite (System.after · pre), apply_ite (System.after · pre)]
    rfl
  | flushed j => rfl
  | finish => rfl

theorem after_startBatch (ring : DpaRing) (buf : ℕ → ℕ → UInt8) :
    (s.after pre).startBatch ring buf = (s.startBatch ring buf).after pre := by
  unfold System.startBatch
  dsimp only
  rw [apply_ite (System.after · pre)]
  rfl

theorem after_consume (i : ℕ) : (s.after pre).consume i = (s.consume i).after pre := by
  unfold System.consume
  rw [show (s.after pre).consumer i = s.consumer i from rfl]
  dsimp only
  cases (s.consumer i).pc with
  | wait =>
    dsimp only
    rw [apply_ite (System.after · pre)]
    rfl
  | call j v =>
    dsimp only
    rw [apply_ite (System.after · pre)]
    refine if_congr Iff.rfl ?_ rfl
    unfold System.after
    congr 2
    funext x
    dsimp only
    by_cases hx : x = i
    · subst hx
      rw [update_self, update_self, List.append_assoc]
    · rw [update_of_ne hx, update_of_ne hx]

variable {s pre} {t : System}

theorem Step.after (h : Step cfg s t) : Step cfg (s.after pre) (t.after pre) := by
  cases h with
  | poll ring buf hpc =>
    rw [← after_startBatch]
    exact .poll _ ring buf hpc
  | produce =>
    rw [← after_produce]
    exact .produce _
  | consume i hi =>
    rw [← after_consume]
    exact .consume _ i hi

theorem after_copyAt {pre' : ℕ → List Packet} (h : pre i = pre' i) :
    (s.after pre).copyAt i = (s.after pre').copyAt i := by
  simp only [System.after, System.copyAt, h]

end

theorem noOverwrite_of_after {pre : ℕ → List Packet} (h : NoOverwrite cfg (s.after pre) i) :
    NoOverwrite cfg s i := by
  refine ⟨h.inRange, h.store, fun j hj ↦ ?_⟩
  have hkept := h.produce j hj
  rw [after_produce] at hkept
  exact hkept

/-- The earlier lives delivered `pre` and gave it back; what the present one holds is the end of
what it was handed. -/
structure RestartInv (cfg : Config) (k : ℕ) (seen : List Packet) (pre : ℕ → List Packet)
    (s : Restarting) : Prop where
  inv : Inv cfg k seen (s.system.after pre)
  start : ∀ i < cfg.copies, (pre i).length = s.start i
  unacked : ∀ i < cfg.copies, s.system.unacked i <:+ s.system.record.delivered i
  resumed : ∀ i < cfg.copies, Resumed (s.system.accepted i) (2 ^ k - 1) (s.lives i)

theorem accepted_after {pre : ℕ → List Packet} (h : Inv cfg k seen (s.after pre))
    (hi : i < cfg.copies) : ∃ l, s.accepted i = pre i ++ (s.record.delivered i ++ l) := by
  obtain ⟨r, f, d, u, hl, -⟩ := h.copies i hi
  refine ⟨_, hl.accepted.trans (List.append_assoc _ _ _)⟩

theorem restart_other (s : System) {j : ℕ} (hji : j ≠ i) :
    (s.restart i).copyAt j = s.copyAt j ∧ (s.restart i).record.delivered j = s.record.delivered j := by
  simp [System.restart, System.copyAt, hji]

/-- The system is as if the new life were the first, what is given back having come before it. -/
theorem Inv.restart {pre : ℕ → List Packet} (h : Inv cfg k seen (s.after pre))
    (hi : i < cfg.copies) {l : List Packet} (hl : s.record.delivered i = l ++ s.unacked i) :
    Inv cfg k seen ((s.restart i).after (update pre i (pre i ++ l))) ∧
      (s.restart i).unacked i = [] ∧ (s.unacked i).length ≤ 2 ^ k - 1 := by
  have hsplit : ((s.after pre).copyAt i).delivered =
      (pre i ++ l) ++ ((s.after pre).copyAt i).unacked := by
    rw [List.append_assoc]
    exact congrArg (pre i ++ ·) hl
  have hat : ((s.restart i).after (update pre i (pre i ++ l))).copyAt i =
      { (s.after pre).copyAt i with
        delivered := pre i ++ l
        consumer := ⟨.wait, ((s.after pre).copyAt i).queue.ridx⟩ } := by
    simp [System.restart, System.after, System.copyAt]
  have hothers (j : ℕ) (hj : j ≠ i) :
      ((s.restart i).after (update pre i (pre i ++ l))).copyAt j = (s.after pre).copyAt j := by
    simp [System.restart, System.after, System.copyAt, hj]
  have hcopy {phase : Phase} (hc : CopyInv k phase ((s.after pre).copyAt i)) :
      CopyInv k phase (((s.restart i).after (update pre i (pre i ++ l))).copyAt i) := by
    obtain ⟨r, f, d, u, hlay, hphase⟩ := hc
    rw [hat]
    exact ⟨r, f, 0, u, hlay.restart hsplit, hphase⟩
  obtain ⟨r, f, d, u, hlay, -⟩ := h.copies i hi
  refine ⟨?_, ?_, ?_⟩
  · exact h.onCopy ⟨rfl, hothers⟩ rfl rfl rfl (fun _ _ ↦ rfl) (fun _ _ ↦ Iff.rfl) hcopy fun _ ↦ id
  · have hnew := (hlay.restart hsplit).unacked
    rw [Copy.between, Nat.sub_zero, ← hat] at hnew
    exact hnew
  · have hlen := congrArg List.length hlay.unacked
    rw [Copy.between, Nat.sub_zero, List.length_map, List.length_range'] at hlen
    have hfits := hlay.fits
    have hread := hlay.read
    change ((s.after pre).copyAt i).unacked.length ≤ _
    omega

namespace RestartInv

variable {pre : ℕ → List Packet} {s s' : Restarting}

theorem noOverwrite (h : RestartInv cfg k seen pre s) (hi : i < cfg.copies) :
    NoOverwrite cfg s.system i :=
  noOverwrite_of_after (CopyInv.noOverwrite h.inv.copies hi)

theorem go {seen' : List Packet} {t : System} (h : RestartInv cfg k seen pre s)
    (hinv : Inv cfg k seen' (t.after pre))
    (hunacked : ∀ i < cfg.copies, t.unacked i <:+ t.record.delivered i)
    (hlog : ∀ i < cfg.copies, s.system.record.log i <+: t.record.log i) :
    RestartInv cfg k seen' pre { s with system := t } := by
  refine ⟨hinv, h.start, hunacked, fun i hi ↦ ?_⟩
  have hext := (h.resumed i hi).extend (((hlog i hi).filter Prod.snd).map Prod.fst)
  obtain ⟨l, hl⟩ := accepted_after hinv hi
  refine hext.read ?_
  change t.record.delivered i <+: (t.accepted i).drop (s.start i)
  rw [hl, List.drop_left' (h.start i hi)]
  exact List.prefix_append _ _

theorem produce (h : RestartInv cfg k seen pre s) :
    ∃ seen', RestartInv cfg k seen' pre { s with system := s.system.produce cfg } := by
  obtain ⟨seen', hinv⟩ := h.inv.produce
  rw [after_produce] at hinv
  refine ⟨seen', h.go hinv (fun i hi ↦ ?_) fun i _ ↦ log_produce _ i⟩
  obtain ⟨r, f, d, u, hl, -⟩ := h.inv.copies i hi
  have hsame := unacked_produce (s := s.system.after pre) hl (CopyInv.noOverwrite h.inv.copies hi)
  rw [after_produce] at hsame
  rw [show (s.system.produce cfg).unacked i = s.system.unacked i from hsame,
    (sameReader_produce s.system).delivered]
  exact h.unacked i hi

theorem consume (h : RestartInv cfg k seen pre s) (j : ℕ) :
    RestartInv cfg k seen pre (s.consume j) := by
  have hinv := h.inv.consume j
  rw [after_consume] at hinv
  refine h.go hinv (fun i hi ↦ ?_) fun i _ ↦ ?_
  · by_cases hij : i = j
    · subst hij
      obtain ⟨r, f, d, u, hl, -⟩ := h.inv.copies i hi
      obtain ⟨x, hx, hheld⟩ := hl.unacked_consume
      rw [← consume_copyAt, after_consume] at hx hheld
      have hdelivered : (s.system.consume i).record.delivered i =
          s.system.record.delivered i ++ x :=
        List.append_cancel_left (hx.trans (List.append_assoc _ _ _))
      obtain ⟨l, hl⟩ := h.unacked i hi
      rw [hdelivered]
      refine List.IsSuffix.trans hheld ⟨l, ?_⟩
      rw [← hl, List.append_assoc]
      rfl
    · have hsame := (consume_same s.system j).others i hij
      have hdelivered : (s.system.consume j).record.delivered i = s.system.record.delivered i :=
        congrArg Copy.delivered hsame
      rw [System.unacked, hsame, hdelivered]
      exact h.unacked i hi
  · rw [consume_log]

theorem restart (h : RestartInv cfg k seen pre s) (hi : i < cfg.copies) :
    ∃ pre', (∀ j, j ≠ i → pre' j = pre j) ∧ RestartInv cfg k seen pre' (s.restart i) := by
  obtain ⟨l, hl⟩ := h.unacked i hi
  obtain ⟨hinv, hnew, hbound⟩ := Inv.restart h.inv hi hl.symm
  have hlen : l.length + (s.system.unacked i).length = (s.system.record.delivered i).length := by
    rw [← hl, List.length_append]
  refine ⟨update pre i (pre i ++ l), fun j hj ↦ update_of_ne hj _ _, hinv, ?_, ?_, ?_⟩
  · intro j hj
    change _ = update s.start i _ j
    by_cases hji : j = i
    · subst hji
      rw [update_self, update_self, List.length_append, h.start j hj]
      omega
    · rw [update_of_ne hji, update_of_ne hji]
      exact h.start j hj
  · intro j hj
    by_cases hji : j = i
    · subst hji
      rw [show (s.restart j).system.unacked j = [] from hnew]
      exact List.nil_suffix
    · obtain ⟨hat, hdelivered⟩ := restart_other s.system hji
      change Copy.unacked ((s.system.restart i).copyAt j) <:+ (s.system.restart i).record.delivered j
      rw [hat, hdelivered]
      exact h.unacked j hj
  · intro j hj
    change Resumed (s.system.accepted j) (2 ^ k - 1)
      (⟨update s.start i _ j, update s.system.record.delivered i [] j⟩ ::
        update s.past i (s.lives i) j)
    by_cases hji : j = i
    · subst hji
      rw [update_self, update_self, update_self]
      exact (h.resumed j hj).restart hbound (Nat.le.intro ((Nat.add_comm _ _).trans hlen))
    · rw [update_of_ne hji, update_of_ne hji, update_of_ne hji]
      exact h.resumed j hj

theorem system {t : System} (h : RestartInv cfg k seen pre s)
    (ht : Duplicator.Step cfg s.system t) :
    ∃ seen', RestartInv cfg k seen' pre { s with system := t } := by
  cases ht with
  | poll ring buf hpc =>
    have hinv := h.inv.startBatch hpc ring buf
    rw [after_startBatch] at hinv
    obtain ⟨hat, hlog, hdelivered⟩ := startBatch_copies s.system ring buf
    refine ⟨seen, h.go hinv (fun i hi ↦ ?_) fun i _ ↦ ?_⟩
    · rw [System.unacked, hat, hdelivered]
      exact h.unacked i hi
    · rw [hlog]
  | produce => exact h.produce
  | consume j _ => exact ⟨seen, h.consume j⟩

theorem step (h : RestartInv cfg k seen pre s) (hs : Restarting.Step cfg s s') :
    ∃ seen' pre', RestartInv cfg k seen' pre' s' := by
  cases hs with
  | go t ht =>
    obtain ⟨seen', h'⟩ := h.system ht
    exact ⟨seen', pre, h'⟩
  | restart i hi =>
    obtain ⟨pre', -, h'⟩ := h.restart hi
    exact ⟨seen, pre', h'⟩

theorem run (h : RestartInv cfg k seen pre s) (hr : ReflTransGen (Restarting.Step cfg) s s') :
    ∃ seen' pre', RestartInv cfg k seen' pre' s' := by
  induction hr with
  | refl => exact ⟨seen, pre, h⟩
  | tail _ hs ih =>
    obtain ⟨seen₁, pre₁, h₁⟩ := ih
    exact h₁.step hs

end RestartInv

/-- A run in which the consumer of copy `i`, whose earlier lives delivered `given`, is to give back
the packets `shown`. -/
def RestartServing (cfg : Config) (k i : ℕ) (given shown : List Packet) (s : Restarting) : Prop :=
  ∃ seen pre, RestartInv cfg k seen pre s ∧ pre i = given ∧
    Serving cfg k i shown (s.system.after pre)

namespace RestartServing

variable {given shown : List Packet} {s s' : Restarting}

def left (i : ℕ) (given : List Packet) (P : ℕ) (s : Restarting) : ℕ :=
  ((s.system.after fun _ ↦ given).copyAt i).left P

theorem left_eq {pre : ℕ → List Packet} (h : pre i = given) (P : ℕ) :
    left i given P s = ((s.system.after pre).copyAt i).left P := by
  have hat : (s.system.after fun _ ↦ given).copyAt i = (s.system.after pre).copyAt i :=
    after_copyAt h.symm
  rw [left, hat]

theorem consume (h : RestartServing cfg k i given shown s) (hi : i < cfg.copies) :
    RestartServing cfg k i given shown (s.consume i) ∧
      left i given shown.length (s.consume i) ≤ left i given shown.length s - 1 := by
  obtain ⟨seen, pre, hinv, rfl, hserving⟩ := h
  obtain ⟨hserving', hleft⟩ := hserving.consume hi i
  rw [after_consume] at hserving' hleft
  rw [if_pos rfl] at hleft
  refine ⟨⟨seen, pre, hinv.consume i, rfl, hserving'⟩, ?_⟩
  rw [left_eq rfl, left_eq rfl]
  exact hleft

theorem step (h : RestartServing cfg k i given shown s) (hi : i < cfg.copies)
    (hs : Restarting.Spares cfg i s s') :
    RestartServing cfg k i given shown s' ∧
      left i given shown.length s' ≤ left i given shown.length s := by
  obtain ⟨seen, pre, hinv, rfl, hserving⟩ := h
  obtain ⟨hs, hpast⟩ := hs
  cases hs with
  | go t ht =>
    obtain ⟨seen', hinv'⟩ := hinv.system ht
    obtain ⟨hserving', hleft⟩ := hserving.step hi ht.after
    refine ⟨⟨seen', pre, hinv', rfl, hserving'⟩, ?_⟩
    rw [left_eq rfl, left_eq rfl]
    exact hleft
  | restart j hj =>
    have hij : i ≠ j := by
      rintro rfl
      have hlives : s.lives i = s.past i := (update_self i _ _).symm.trans hpast
      exact absurd (congrArg List.length hlives) (Nat.succ_ne_self _)
    obtain ⟨pre', hpre', hinv'⟩ := hinv.restart hj
    have hat (q : ℕ → List Packet) :
        ((s.restart j).system.after q).copyAt i = (s.system.after q).copyAt i := by
      simp [Restarting.restart, System.restart, System.after, System.copyAt, hij]
    refine ⟨⟨seen, pre', hinv', hpre' i hij, ⟨seen, hinv'.inv⟩, hserving.accepted, ?_⟩, ?_⟩
    · rw [hat, after_copyAt (hpre' i hij)]
      exact hserving.published
    · rw [left, hat]
      exact le_rfl

theorem run {n : ℕ} (h : RestartServing cfg k i given shown s) (hi : i < cfg.copies)
    (hr : RunWith (Restarting.Spares cfg i) (fun t ↦ t.consume i) n s s') :
    RestartServing cfg k i given shown s' ∧
      left i given shown.length s' ≤ left i given shown.length s - n :=
  hr.spends (m := left i given shown.length)
    (fun _ ht ↦ ht.consume hi) (fun _ _ hs ht ↦ ht.step hi hs) h

end RestartServing

theorem RestartInv.handsOver {pre : ℕ → List Packet} {s t : Restarting} {n : ℕ}
    (h : RestartInv cfg k seen pre s) (hi : i < cfg.copies)
    (hr : RunWith (Restarting.Spares cfg i) (fun t ↦ t.consume i) n s t)
    (hn : 2 * (s.system.queue i).size + 1 ≤ n) :
    s.system.record.delivered i ++ s.system.queued i <+: t.system.record.delivered i := by
  have hserving := h.inv.serving hi
  obtain ⟨⟨seen', pre', -, hpre', ht⟩, hleft⟩ :=
    RestartServing.run ⟨seen, pre, h, rfl, hserving⟩ hi hr
  rw [RestartServing.left_eq (s := s) rfl, RestartServing.left_eq hpre'] at hleft
  have hshown : (pre i ++ s.system.record.delivered i) ++ s.system.queued i <+:
      pre' i ++ t.system.record.delivered i :=
    (hserving.served_after ht hi hleft hn).1
  rw [hpre', List.append_assoc, List.prefix_append_right_inj] at hshown
  exact hshown

/-- Whatever was accepted and lies before the end of a life has been delivered in one of them; each
goes on from a place that is less than a queue before the end of its predecessor, and is handed what
is queued when it lives long enough. -/
structure AtLeastOnce (cfg : Config) (k : ℕ) (s : Restarting) (i : ℕ) : Prop where
  resumed : Resumed (s.system.accepted i) (2 ^ k - 1) (s.lives i)
  covered : ∀ l ∈ s.lives i, ∀ n < l.finish, ∃ l' ∈ s.lives i, l'.start ≤ n ∧
    l'.items[n - l'.start]? = (s.system.accepted i)[n]? ∧ n < l'.finish
  log : (s.system.record.log i).map Prod.fst <+: s.system.record.input.filter cfg.valid
  idle : s.system.producer.pc = .poll → s.system.accepted i =
    (s.system.accepted i).take (s.start i) ++ s.system.record.delivered i ++ s.system.queued i
  handsOver : ∀ n t, RunWith (Restarting.Spares cfg i) (fun t ↦ t.consume i) n s t →
    2 * (s.system.queue i).size + 1 ≤ n →
      s.system.record.delivered i ++ s.system.queued i <+: t.system.record.delivered i

theorem RestartInv.atLeastOnce {pre : ℕ → List Packet} {s : Restarting}
    (h : RestartInv cfg k seen pre s) (hi : i < cfg.copies) : AtLeastOnce cfg k s i where
  resumed := h.resumed i hi
  covered := fun _ hl _ hn ↦ (h.resumed i hi).covered hl hn
  log := (h.inv.inOrder hi).log
  idle := by
    intro hpc
    have hall := (h.inv.balanced hi hpc).accepted
    change s.system.accepted i = (pre i ++ s.system.record.delivered i) ++ s.system.queued i at hall
    have htake : (s.system.accepted i).take (s.start i) = pre i := by
      rw [hall, List.append_assoc, List.take_left' (h.start i hi)]
    rw [htake]
    exact hall
  handsOver := fun _ _ hr hn ↦ h.handsOver hi hr hn

theorem Initial.restartInv (hk : k ≤ 30) (h : Initial cfg k s) :
    RestartInv cfg k [] (fun _ ↦ []) ⟨s, fun _ ↦ [], fun _ ↦ 0⟩ where
  inv := h.inv hk
  start := fun _ _ ↦ rfl
  unacked := by
    intro i hi
    obtain ⟨r, f, d, u, hl, -⟩ := (h.inv hk).copies i hi
    have hd : d = 0 := by
      have hstands := hl.stands
      rw [show (s.copyAt i).consumer.pc = .wait from congrArg Consumer.pc (h.consumer i hi)]
        at hstands
      exact hstands
    subst hd
    rw [System.unacked, hl.unacked, Copy.between]
    exact List.nil_suffix
  resumed := by
    intro i _
    have hdelivered : s.record.delivered i = [] := congrArg (fun r ↦ r.delivered i) h.record
    exact .first _ rfl (hdelivered ▸ List.nil_prefix)

/-- Consumers may be killed and started again at any time: each copy is still delivered at least
once and in order, and its producer never overwrites what a successor has to read again. -/
theorem restarts_deliver {s₀ : System} {s : Restarting} (hk : k ≤ 30) (h₀ : Initial cfg k s₀)
    (hr : ReflTransGen (Restarting.Step cfg) ⟨s₀, fun _ ↦ [], fun _ ↦ 0⟩ s) :
    ∀ i < cfg.copies, NoOverwrite cfg s.system i ∧ AtLeastOnce cfg k s i := by
  obtain ⟨seen, pre, h⟩ := (h₀.restartInv hk).run hr
  exact fun i hi ↦ ⟨h.noOverwrite hi, h.atLeastOnce hi⟩

/-- The consumer of the one copy is killed after it has been handed a packet. -/
def twoSlotsKilled : Restarting :=
  Restarting.restart ⟨(twoSlotsServed.consume 0).consume 0, fun _ ↦ [], fun _ ↦ 0⟩ 0

/-- Its successor is handed the packet again. -/
def twoSlotsResumed : Restarting := (twoSlotsKilled.consume 0).consume 0

theorem twoSlots_killed :
    ReflTransGen (Restarting.Step ⟨1, 16⟩) ⟨twoSlots, fun _ ↦ [], fun _ ↦ 0⟩ twoSlotsKilled := by
  have hserved : ReflTransGen (Restarting.Step ⟨1, 16⟩) ⟨twoSlots, fun _ ↦ [], fun _ ↦ 0⟩
      ⟨twoSlotsServed, fun _ ↦ [], fun _ ↦ 0⟩ :=
    twoSlots_run.lift (fun t ↦ (⟨t, fun _ ↦ [], fun _ ↦ 0⟩ : Restarting)) fun _ t ht ↦ .go _ t ht
  refine hserved.trans ?_
  refine .head (.go _ _ (.consume _ 0 (by decide))) (.head (.go _ _ (.consume _ 0 (by decide))) ?_)
  exact .single (.restart _ 0 (by decide))

theorem twoSlots_resumed :
    ReflTransGen (Restarting.Step ⟨1, 16⟩) ⟨twoSlots, fun _ ↦ [], fun _ ↦ 0⟩ twoSlotsResumed :=
  (twoSlots_killed.tail (.go _ _ (.consume _ 0 (by decide)))).tail
    (.go _ _ (.consume _ 0 (by decide)))

theorem restarts_deliver_twoSlots :
    ((twoSlotsResumed.lives 0).map fun l ↦ (l.start, l.items.map Packet.len)) =
        [(0, [1]), (0, [1])] ∧
      (∀ i < 1, NoOverwrite ⟨1, 16⟩ twoSlotsResumed.system i ∧
        AtLeastOnce ⟨1, 16⟩ 1 twoSlotsResumed i) ∧
      (twoSlotsKilled.system.record.delivered 0 = [] ∧
        twoSlotsKilled.system.queued 0 = [⟨1, 0, [7]⟩]) ∧
      twoSlotsKilled.system.record.delivered 0 ++ twoSlotsKilled.system.queued 0 <+:
        ((fun s ↦ s.consume 0)^[5] twoSlotsKilled).system.record.delivered 0 :=
  have h := restarts_deliver (by decide) twoSlots_initial twoSlots_killed 0 (by decide)
  ⟨by decide +kernel, restarts_deliver (by decide) twoSlots_initial twoSlots_resumed,
    by decide +kernel, h.2.handsOver 5 _ (.iterate _ _ 5 _) (by decide +kernel)⟩

end Dpa.Duplicator
