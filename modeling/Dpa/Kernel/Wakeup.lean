import Dpa.Kernel.Poll

namespace Dpa.Kernel

open Function Library

section

variable (dadp : PollAdapter)

/-- The lock under which `dpa_rx_irq` wakes a queue. -/
def lockOf : WaitQueue → SpinLock
  | .rx => .core
  | .ring i => if dadp.exclLocks then .queue i else .core

/-- The queue that `dpa_poll` joins for ring `i`. -/
def queueOf (all : Bool) (i : ℕ) : WaitQueue := if all then .rx else .ring i

/-- The caller waits for packets on ring `i`. -/
def Sleeper.Watches (z : Sleeper) (i : ℕ) : Prop :=
  z.doRx ≠ 0 ∧ ∃ priv, z.priv = some priv ∧ priv.rfirst ≤ i ∧ i < pollMaxRx dadp priv

end

/-- What a thread knows: the locks that it holds and the queues that it is on, how many packets have
arrived, the rings that it has synchronised under the lock of a queue and those that it has then
found empty, and the queues that it has woken for so many packets. -/
structure Knows where
  held : Set SpinLock
  waits : Set WaitQueue
  seen : Set (ℕ × ℕ)
  synced : Set (WaitQueue × ℕ)
  quiet : Set (WaitQueue × ℕ)
  called : Set (WaitQueue × ℕ × ℕ)

namespace Knows

def empty : Knows := ⟨∅, ∅, ∅, ∅, ∅, ∅⟩

variable (l : Knows)

def lock (x : SpinLock) : Knows := { l with held := insert x l.held }

def unlock (dadp : PollAdapter) (x : SpinLock) : Knows :=
  { l with
    held := l.held \ {x}
    synced := {z ∈ l.synced | lockOf dadp z.1 ≠ x}
    quiet := {z ∈ l.quiet | lockOf dadp z.1 ≠ x ∨ z.1 ∈ l.waits} }

def sync (q : WaitQueue) (i : ℕ) : Knows := { l with synced := insert (q, i) l.synced }

/-- `avail` is what is found of ring `i`. -/
def find (q : WaitQueue) (i avail : ℕ) : Knows :=
  if avail = 0 then { l with quiet := insert (q, i) l.quiet } else l

def wait (q : WaitQueue) : Knows := { l with waits := insert q l.waits }

def call (q : WaitQueue) (i n : ℕ) : Knows := { l with called := insert (q, i, n) l.called }

variable {l} {q : WaitQueue} {i avail : ℕ}

theorem find_zero : l.find q i 0 = { l with quiet := insert (q, i) l.quiet } := if_pos rfl

theorem find_of_ne (h : avail ≠ 0) : l.find q i avail = l := if_neg h

@[simp] theorem find_held : (l.find q i avail).held = l.held := by
  by_cases h : avail = 0
  · rw [h, find_zero]
  · rw [find_of_ne h]

end Knows

/-- What thread `t` knows is so; `told q i` packets of ring `i` had arrived when queue `q` was woken
for it. -/
structure Knows.Holds (dadp : PollAdapter) (told : WaitQueue → ℕ → ℕ) (t : ℕ) (l : Knows)
    (s : PollState) : Prop where
  held : ∀ x ∈ l.held, s.owner x = some t
  waits : ∀ q ∈ l.waits, s.waiting q t = true
  seen : ∀ z ∈ l.seen, z.2 ≤ (s.rings z.1).arrived
  synced : ∀ z ∈ l.synced, lockOf dadp z.1 ∈ l.held ∧
    told z.1 z.2 ≤ (s.rings z.2).consumed + (s.rings z.2).avail
  quiet : ∀ z ∈ l.quiet, (lockOf dadp z.1 ∈ l.held ∨ z.1 ∈ l.waits) ∧
    (s.woken t = false → told z.1 z.2 ≤ (s.rings z.2).consumed)
  called : ∀ z ∈ l.called, z.2.2 ≤ told z.1 z.2.1
  asleep : ∀ z priv, s.asleep t = some z → z.priv = some priv → ∀ i, z.Watches dadp i →
    dadp.enabled = true ∧ (queueOf (checkAll dadp priv) i, i) ∈ l.quiet ∧
      queueOf (checkAll dadp priv) i ∈ l.waits

/-- No more is waked for than has arrived, and who completes has waked for it. -/
structure Traffic (dadp : PollAdapter) (told : WaitQueue → ℕ → ℕ) (s : PollState) : Prop where
  counts : ∀ i, (s.rings i).consumed + (s.rings i).avail ≤ (s.rings i).arrived
  arrived : ∀ q i, told q i ≤ (s.rings i).arrived
  ring : dadp.enabled = true → ∀ i, (s.rings i).announced ≤ told (.ring i) i
  rx : dadp.enabled = true → 0 < dadp.numRxRings → ∀ i, (s.rings i).announced ≤ told .rx i

def PollInv (dadp : PollAdapter) (ls : ℕ → Knows) (s : PollState) : Prop :=
  ∃ told, Traffic dadp told s ∧ ∀ t, (ls t).Holds dadp told t s

section

variable {dadp : PollAdapter} {told told' : WaitQueue → ℕ → ℕ} {ls : ℕ → Knows} {l l' : Knows}
  {s s' : PollState} {t u : ℕ}

theorem PollInv.move (h : PollInv dadp ls s)
    (hmove : ∀ told, Traffic dadp told s → (ls t).Holds dadp told t s →
      ∃ told', Traffic dadp told' s' ∧ l'.Holds dadp told' t s' ∧
        ∀ u (l : Knows), u ≠ t → l.Holds dadp told u s → l.Holds dadp told' u s') :
    PollInv dadp (update ls t l') s' := by
  obtain ⟨told, htraffic, hknows⟩ := h
  obtain ⟨told', htraffic', hself, hother⟩ := hmove told htraffic (hknows t)
  refine ⟨told', htraffic', fun u ↦ ?_⟩
  by_cases hut : u = t
  · rw [hut, update_self]
    exact hself
  · rw [update_of_ne hut]
    exact hother u (ls u) hut (hknows u)

/-- Traffic that only grows, where what is known of it does not change otherwise. -/
structure Later (s s' : PollState) (t : ℕ) : Prop where
  owner : ∀ x, s.owner x = some t → s'.owner x = some t
  waiting : ∀ q, s.waiting q t = true → s'.waiting q t = true
  arrived : ∀ i, (s.rings i).arrived ≤ (s'.rings i).arrived
  consumed : ∀ i, (s.rings i).consumed ≤ (s'.rings i).consumed
  harvested : ∀ i, (s.rings i).consumed + (s.rings i).avail ≤
    (s'.rings i).consumed + (s'.rings i).avail
  woken : s'.woken t = false → s.woken t = false
  asleep : s'.asleep t = s.asleep t

theorem Knows.Holds.later (h : l.Holds dadp told t s) (hs : Later s s' t) :
    l.Holds dadp told t s' where
  held x hx := hs.owner x (h.held x hx)
  waits q hq := hs.waiting q (h.waits q hq)
  seen z hz := (h.seen z hz).trans (hs.arrived z.1)
  synced z hz := ⟨(h.synced z hz).1, (h.synced z hz).2.trans (hs.harvested z.2)⟩
  quiet z hz := ⟨(h.quiet z hz).1, fun hw ↦ ((h.quiet z hz).2 (hs.woken hw)).trans (hs.consumed z.2)⟩
  called := h.called
  asleep z priv hz := h.asleep z priv (hs.asleep ▸ hz)

/-- What is known of the program of a call; nothing is asked of its actions. -/
abbrev PollKeeps {α : Type} (dadp : PollAdapter) (t : ℕ) (Q : α → Knows → Prop) (p : PollProgram α)
    (l : Knows) : Prop :=
  p.Keeps pollExec (fun _ _ _ ↦ True) (PollInv dadp) t Q l

theorem Later.of_rings (hown : ∀ x, s.owner x = some t → s'.owner x = some t)
    (hwait : ∀ q, s.waiting q t = true → s'.waiting q t = true) (hrings : s'.rings = s.rings)
    (hwoken : s'.woken = s.woken) (hasleep : s'.asleep = s.asleep) : Later s s' t where
  owner := hown
  waiting := hwait
  arrived i := (congrArg (fun f ↦ (f i).arrived) hrings).ge
  consumed i := (congrArg (fun f ↦ (f i).consumed) hrings).ge
  harvested i := (congrArg (fun f ↦ (f i).consumed + (f i).avail) hrings).ge
  woken h := hwoken ▸ h
  asleep := congrFun hasleep t

theorem Traffic.of_rings (h : Traffic dadp told s) (hrings : s'.rings = s.rings) :
    Traffic dadp told s' where
  counts i := hrings ▸ h.counts i
  arrived q i := hrings ▸ h.arrived q i
  ring he i := hrings ▸ h.ring he i
  rx he hn i := hrings ▸ h.rx he hn i

theorem pollKeeps_lock (x : SpinLock) :
    PollKeeps dadp t (fun _ l' ↦ l' = l.lock x) (.perform (PollAccess.lock x)) l := by
  rintro ls s r s' rfl hinv - hexec
  refine ⟨_, hinv.move fun told htraffic hknows ↦ ?_, rfl⟩
  cases hx : s.owner x with
  | some u => simp only [pollExec, hx, reduceCtorEq] at hexec
  | none =>
    simp only [pollExec, hx, Option.some.injEq, Prod.mk.injEq] at hexec
    obtain ⟨-, rfl⟩ := hexec
    have hlater : ∀ u, Later s { s with owner := update s.owner x (some t) } u := by
      refine fun u ↦ .of_rings (fun y hy ↦ ?_) (fun _ ↦ id) rfl rfl rfl
      have hyx : y ≠ x := fun h ↦ by
        rw [h, hx] at hy
        cases hy
      exact (update_of_ne hyx _ _).trans hy
    refine ⟨told, htraffic.of_rings rfl, ?_, fun u _ _ h ↦ h.later (hlater u)⟩
    have hself := hknows.later (hlater t)
    refine { hself with held := ?_, synced := ?_, quiet := ?_ }
    · rintro y (rfl | hy)
      · exact update_self ..
      · exact hself.held y hy
    · exact fun z hz ↦ ⟨.inr (hself.synced z hz).1, (hself.synced z hz).2⟩
    · exact fun z hz ↦ ⟨(hself.quiet z hz).1.imp_left .inr, (hself.quiet z hz).2⟩

theorem pollKeeps_unlock {x : SpinLock} (hx : x ∈ l.held) :
    PollKeeps dadp t (fun _ l' ↦ l' = l.unlock dadp x) (.perform (PollAccess.unlock x)) l := by
  rintro ls s r s' rfl hinv - hexec
  refine ⟨_, hinv.move fun told htraffic hknows ↦ ?_, rfl⟩
  obtain ⟨-, rfl⟩ := Prod.mk.inj (Option.some.inj hexec)
  have hkeep : ∀ y, y ≠ x → update s.owner x none y = s.owner y := fun y hy ↦ update_of_ne hy ..
  refine ⟨told, htraffic.of_rings rfl, ?_, fun u l hut h ↦ h.later ?_⟩
  · refine { hknows with held := ?_, synced := ?_, quiet := ?_, asleep := ?_ }
    · exact fun y hy ↦ (hkeep y hy.2).trans (hknows.held y hy.1)
    · exact fun z hz ↦ ⟨⟨(hknows.synced z hz.1).1, hz.2⟩, (hknows.synced z hz.1).2⟩
    · rintro z ⟨hz, hkept⟩
      obtain ⟨hguard, htold⟩ := hknows.quiet z hz
      refine ⟨?_, htold⟩
      rcases hguard with hheld | hwait
      · exact hkept.imp_left fun hne ↦ ⟨hheld, hne⟩
      · exact .inr hwait
    · intro z priv hz hpriv i hi
      obtain ⟨he, hquiet, hwait⟩ := hknows.asleep z priv hz hpriv i hi
      exact ⟨he, ⟨hquiet, .inr hwait⟩, hwait⟩
  · refine .of_rings (fun y hy ↦ ?_) (fun _ ↦ id) rfl rfl rfl
    have hyx : y ≠ x := by
      rintro rfl
      rw [hknows.held y hx] at hy
      exact hut (Option.some.inj hy).symm
    exact (hkeep y hyx).trans hy

theorem pollKeeps_wait (q : WaitQueue) :
    PollKeeps dadp t (fun _ l' ↦ l' = l.wait q) (.perform (PollAccess.pollWait q)) l := by
  rintro ls s r s' rfl hinv - hexec
  refine ⟨_, hinv.move fun told htraffic hknows ↦ ?_, rfl⟩
  obtain ⟨-, rfl⟩ := Prod.mk.inj (Option.some.inj hexec)
  have hself : update s.waiting q (update (s.waiting q) t true) q t = true := by
    rw [update_self, update_self]
  have hlater : ∀ u, Later s
      { s with waiting := update s.waiting q (update (s.waiting q) t true) } u := by
    refine fun u ↦ .of_rings (fun _ ↦ id) (fun q' hq' ↦ ?_) rfl rfl rfl
    change update s.waiting q (update (s.waiting q) t true) q' u = true
    by_cases hq : q' = q
    · subst hq
      by_cases hu : u = t
      · rw [hu]
        exact hself
      · rwa [update_self, update_of_ne hu]
    · rwa [update_of_ne hq]
  refine ⟨told, htraffic.of_rings rfl, ?_, fun u _ _ h ↦ h.later (hlater u)⟩
  have hknown := hknows.later (hlater t)
  refine { hknown with waits := ?_, quiet := ?_, asleep := ?_ }
  · rintro q' (rfl | hq')
    · exact hself
    · exact hknown.waits q' hq'
  · exact fun z hz ↦ ⟨(hknown.quiet z hz).1.imp_right .inr, (hknown.quiet z hz).2⟩
  · intro z priv hz hpriv i hi
    obtain ⟨he, hquiet, hwait⟩ := hknown.asleep z priv hz hpriv i hi
    exact ⟨he, hquiet, .inr hwait⟩

theorem setRing_rings (s : PollState) (i j : ℕ) (r : RingTraffic) :
    (s.setRing i r).rings j = if j = i then r else s.rings j := by
  change update s.rings i r j = _
  rw [update_apply]

theorem Later.of_setRing {i : ℕ} {r : RingTraffic} (harrived : (s.rings i).arrived ≤ r.arrived)
    (hconsumed : (s.rings i).consumed ≤ r.consumed)
    (havail : (s.rings i).consumed + (s.rings i).avail ≤ r.consumed + r.avail) :
    Later s (s.setRing i r) t := by
  have hring : ∀ {f : RingTraffic → ℕ}, f (s.rings i) ≤ f r → ∀ j,
      f (s.rings j) ≤ f ((s.setRing i r).rings j) := by
    intro f hf j
    rw [setRing_rings]
    by_cases hj : j = i
    · rw [if_pos hj, hj]
      exact hf
    · rw [if_neg hj]
  exact ⟨fun _ ↦ id, fun _ ↦ id, hring harrived, hring hconsumed,
    hring (f := fun r ↦ r.consumed + r.avail) havail, id, rfl⟩

theorem Traffic.of_setRing (h : Traffic dadp told s) {i : ℕ} {r : RingTraffic}
    (hcounts : r.consumed + r.avail ≤ r.arrived) (harrived : (s.rings i).arrived ≤ r.arrived)
    (hring : dadp.enabled = true → r.announced ≤ told (.ring i) i)
    (hrx : dadp.enabled = true → 0 < dadp.numRxRings → r.announced ≤ told .rx i) :
    Traffic dadp told (s.setRing i r) := by
  refine ⟨fun j ↦ ?_, fun q j ↦ ?_, fun he j ↦ ?_, fun he hn j ↦ ?_⟩
  all_goals
    rw [setRing_rings]
    by_cases hj : j = i
  · rw [if_pos hj]
    exact hcounts
  · rw [if_neg hj]
    exact h.counts j
  · rw [if_pos hj, hj]
    exact (h.arrived q i).trans harrived
  · rw [if_neg hj]
    exact h.arrived q j
  · rw [if_pos hj, hj]
    exact hring he
  · rw [if_neg hj]
    exact h.ring he j
  · rw [if_pos hj, hj]
    exact hrx he hn
  · rw [if_neg hj]
    exact h.rx he hn j

theorem PollInv.setRing (h : PollInv dadp ls s) {i : ℕ} {r : RingTraffic}
    (harrived : (s.rings i).arrived ≤ r.arrived) (hconsumed : (s.rings i).consumed ≤ r.consumed)
    (havail : (s.rings i).consumed + (s.rings i).avail ≤ r.consumed + r.avail)
    (hcounts : (s.rings i).consumed + (s.rings i).avail ≤ (s.rings i).arrived →
      r.consumed + r.avail ≤ r.arrived)
    (hannounced : r.announced = (s.rings i).announced) : PollInv dadp ls (s.setRing i r) := by
  obtain ⟨told, htraffic, hknows⟩ := h
  refine ⟨told, htraffic.of_setRing (hcounts (htraffic.counts i)) harrived (fun he ↦ ?_)
    fun he hn ↦ ?_, fun t ↦ (hknows t).later (.of_setRing harrived hconsumed havail)⟩
  · exact hannounced ▸ htraffic.ring he i
  · exact hannounced ▸ htraffic.rx he hn i

theorem pollKeeps_pendIntr (i : ℕ) :
    PollKeeps dadp t (fun _ l' ↦ l' = l) (.perform (PollAccess.pendIntr i)) l := by
  rintro ls s r s' rfl hinv - hexec
  obtain ⟨-, rfl⟩ := Prod.mk.inj (Option.some.inj hexec)
  refine ⟨_, ?_, rfl⟩
  rw [update_eq_self]
  exact hinv.setRing le_rfl le_rfl le_rfl id rfl

/-- All that has arrived is there, and nobody is told of more who waits under the same lock. -/
theorem pollKeeps_rxSync {q : WaitQueue} (hq : lockOf dadp q ∈ l.held) (i : ℕ) :
    PollKeeps dadp t (fun _ l' ↦ l' = l.sync q i) (.perform (PollAccess.rxSync i)) l := by
  rintro ls s r s' rfl hinv - hexec
  refine ⟨_, hinv.move fun told htraffic hknows ↦ ?_, rfl⟩
  obtain ⟨-, rfl⟩ := Prod.mk.inj (Option.some.inj hexec)
  have hcounts := htraffic.counts i
  have hsum : (s.rings i).consumed + ((s.rings i).arrived - (s.rings i).consumed) =
      (s.rings i).arrived := by omega
  have hlater : ∀ u, Later s _ u := fun u ↦
    .of_setRing (s := s) (i := i)
      (r := { s.rings i with
        avail := (s.rings i).arrived - (s.rings i).consumed
        pendIntr := false })
      le_rfl le_rfl (hcounts.trans hsum.ge)
  refine ⟨told, htraffic.of_setRing hsum.le le_rfl (fun he ↦ htraffic.ring he i)
    (fun he hn ↦ htraffic.rx he hn i), ?_, fun u _ _ h ↦ h.later (hlater u)⟩
  have hself := hknows.later (hlater t)
  refine { hself with synced := ?_ }
  rintro z (rfl | hz)
  · refine ⟨hq, ?_⟩
    rw [setRing_rings, if_pos rfl]
    exact (htraffic.arrived q i).trans hsum.ge
  · exact hself.synced z hz

theorem pollKeeps_loadAvail {q : WaitQueue} {i : ℕ} (hq : (q, i) ∈ l.synced) :
    PollKeeps dadp t (fun avail l' ↦ l' = l.find q i avail) (.perform (PollAccess.loadAvail i))
      l := by
  rintro ls s r s' rfl hinv - hexec
  refine ⟨_, hinv.move fun told htraffic hknows ↦ ?_, rfl⟩
  obtain ⟨rfl, rfl⟩ := Prod.mk.inj (Option.some.inj hexec)
  refine ⟨told, htraffic, ?_, fun u _ _ h ↦ h⟩
  obtain ⟨hheld, htold⟩ := hknows.synced _ hq
  rw [Knows.find]
  by_cases havail : (s.rings i).avail = 0
  · rw [if_pos havail]
    rw [havail, Nat.add_zero] at htold
    refine { hknows with quiet := ?_, asleep := ?_ }
    · rintro z (rfl | hz)
      · exact ⟨.inl hheld, fun _ ↦ htold⟩
      · exact hknows.quiet z hz
    · intro z priv hz hpriv j hj
      obtain ⟨he, hquiet, hwait⟩ := hknows.asleep z priv hz hpriv j hj
      exact ⟨he, .inr hquiet, hwait⟩
  · rw [if_neg havail]
    exact hknows

/-- What has been told when queue `q` is woken for `n` packets of ring `i`. -/
def tell (told : WaitQueue → ℕ → ℕ) (q : WaitQueue) (i n : ℕ) (q' : WaitQueue) (j : ℕ) : ℕ :=
  if q' = q ∧ j = i then max (told q i) n else told q' j

theorem le_tell (q : WaitQueue) (i n : ℕ) (q' : WaitQueue) (j : ℕ) :
    told q' j ≤ tell told q i n q' j := by
  rw [tell]
  by_cases h : q' = q ∧ j = i
  · rw [if_pos h, h.1, h.2]
    exact le_max_left _ _
  · rw [if_neg h]

theorem tell_of_ne {q q' : WaitQueue} (h : q' ≠ q) (i n j : ℕ) :
    tell told q i n q' j = told q' j := by
  rw [tell, if_neg fun hq ↦ h hq.1]

theorem tell_self (q : WaitQueue) (i n : ℕ) : n ≤ tell told q i n q i := by
  rw [tell, if_pos ⟨rfl, rfl⟩]
  exact le_max_right _ _

theorem Traffic.tell (h : Traffic dadp told s) {i n : ℕ} (hn : n ≤ (s.rings i).arrived)
    (q : WaitQueue) : Traffic dadp (tell told q i n) s where
  counts := h.counts
  arrived q' j := by
    rw [Kernel.tell]
    by_cases hq : q' = q ∧ j = i
    · rw [if_pos hq, hq.2]
      exact max_le (h.arrived q i) hn
    · rw [if_neg hq]
      exact h.arrived q' j
  ring he j := (h.ring he j).trans (le_tell q i n _ j)
  rx he hnum j := (h.rx he hnum j).trans (le_tell q i n _ j)

/-- The caller must be on the queue by now, or have none of its locks. -/
theorem Knows.Holds.tell (h : l.Holds dadp told t s) {q : WaitQueue} {i n : ℕ}
    (hsynced : ∀ z ∈ l.synced, z.1 ≠ q) (hquiet : ∀ z ∈ l.quiet, z.1 = q → q ∈ l.waits) :
    l.Holds dadp (tell told q i n) t { s with woken := fun u ↦ s.woken u || s.waiting q u } where
  held := h.held
  waits := h.waits
  seen := h.seen
  synced z hz := by
    rw [tell_of_ne (hsynced z hz)]
    exact h.synced z hz
  quiet z hz := by
    obtain ⟨hguard, htold⟩ := h.quiet z hz
    refine ⟨hguard, fun hw ↦ ?_⟩
    obtain ⟨hwoken, hwaiting⟩ := Bool.or_eq_false_iff.1 hw
    by_cases hzq : z.1 = q
    · rw [h.waits q (hquiet z hz hzq)] at hwaiting
      cases hwaiting
    · rw [tell_of_ne hzq]
      exact htold hwoken
  called z hz := (h.called z hz).trans (le_tell q i n _ _)
  asleep := h.asleep

theorem pollKeeps_load (i : ℕ) :
    PollKeeps dadp t (fun _ l' ↦ l' = l) (.perform (PollAccess.loadAvail i)) l := by
  rintro ls s r s' rfl hinv - hexec
  obtain ⟨-, rfl⟩ := Prod.mk.inj (Option.some.inj hexec)
  refine ⟨_, ?_, rfl⟩
  rwa [update_eq_self]

/-- Who is on the queue is woken, and nobody is about to join it. -/
theorem pollKeeps_wakeUp {q : WaitQueue} {i n : ℕ} (hq : lockOf dadp q ∈ l.held)
    (hn : (i, n) ∈ l.seen) (hsynced : l.synced = ∅) (hquiet : l.quiet = ∅) :
    PollKeeps dadp t (fun _ l' ↦ l' = l.call q i n) (.perform (PollAccess.wakeUp q)) l := by
  rintro ls s r s' rfl hinv - hexec
  refine ⟨_, hinv.move fun told htraffic hknows ↦ ?_, rfl⟩
  obtain ⟨-, rfl⟩ := Prod.mk.inj (Option.some.inj hexec)
  refine ⟨tell told q i n, (htraffic.tell (hknows.seen _ hn) q).of_rings rfl, ?_,
    fun u l' hut h ↦ ?_⟩
  · have hself := hknows.tell (q := q) (i := i) (n := n)
      (fun z hz ↦ by rw [hsynced] at hz; exact hz.elim)
      (fun z hz ↦ by rw [hquiet] at hz; exact hz.elim)
    refine { hself with called := ?_ }
    rintro z (rfl | hz)
    · exact tell_self q i n
    · exact hself.called z hz
  · have hfree : lockOf dadp q ∉ l'.held := fun hheld ↦ by
      have hu := h.held _ hheld
      rw [hknows.held _ hq] at hu
      exact hut (Option.some.inj hu).symm
    refine h.tell (fun z hz hzq ↦ hfree (hzq ▸ (h.synced z hz).1)) fun z hz hzq ↦ ?_
    subst hzq
    exact (h.quiet z hz).1.resolve_left hfree

end

section

variable {dadp : PollAdapter} {l : Knows} {t i n : ℕ}

structure Calling (i n : ℕ) (qs : Set WaitQueue) (l : Knows) : Prop where
  seen : (i, n) ∈ l.seen
  synced : l.synced = ∅
  quiet : l.quiet = ∅
  called : ∀ q ∈ qs, (q, i, n) ∈ l.called

variable {qs : Set WaitQueue} {q : WaitQueue}

theorem Calling.lock (h : Calling i n qs l) (x : SpinLock) : Calling i n qs (l.lock x) :=
  ⟨h.seen, h.synced, h.quiet, h.called⟩

theorem Calling.unlock (h : Calling i n qs l) (x : SpinLock) :
    Calling i n qs (l.unlock dadp x) := by
  refine ⟨h.seen, ?_, ?_, h.called⟩
  · simp only [Knows.unlock, h.synced, Set.mem_empty_iff_false, false_and, Set.ofPred_false]
  · simp only [Knows.unlock, h.quiet, Set.mem_empty_iff_false, false_and, Set.ofPred_false]

theorem Calling.call (h : Calling i n qs l) (q : WaitQueue) :
    Calling i n (insert q qs) (l.call q i n) := by
  refine ⟨h.seen, h.synced, h.quiet, ?_⟩
  rintro q' (rfl | hq')
  · exact .inl rfl
  · exact .inr (h.called q' hq')

theorem Calling.wakeUp (h : Calling i n qs l) (hq : lockOf dadp q ∈ l.held) :
    PollKeeps dadp t (fun _ l' ↦ l' = l.call q i n) (.perform (PollAccess.wakeUp q)) l :=
  pollKeeps_wakeUp hq h.seen h.synced h.quiet

def irqQueues (dadp : PollAdapter) (i : ℕ) : Set WaitQueue :=
  {q | q = .ring i ∨ q = .rx ∧ 0 < dadp.numRxRings}

theorem pollKeeps_dpaRxIrq (h : Calling i n ∅ l) :
    PollKeeps dadp t (fun _ l' ↦ dadp.enabled = true → Calling i n (irqQueues dadp i) l')
      (dpaRxIrq dadp i) l := by
  have hall : ∀ {qs l}, Calling i n qs l → WaitQueue.ring i ∈ qs →
      (decide (dadp.numRxRings > 0) = true → WaitQueue.rx ∈ qs) →
      Calling i n (irqQueues dadp i) l := by
    refine fun hc hring hrx ↦ ⟨hc.seen, hc.synced, hc.quiet, ?_⟩
    rintro q (rfl | ⟨rfl, hnum⟩)
    · exact hc.called _ hring
    · exact hc.called _ (hrx (decide_eq_true hnum))
  rw [dpaRxIrq]
  by_cases he : dadp.enabled = false
  · rw [if_pos he]
    exact fun h ↦ by rw [h] at he; cases he
  rw [if_neg he]
  refine (pollKeeps_pendIntr i).bind fun _ l' hl' ↦ ?_
  rw [hl']
  cases hexcl : dadp.exclLocks with
  | true =>
    refine (pollKeeps_lock (.queue i)).bind fun _ l₁ h₁ ↦ ?_
    have hheld₁ : lockOf dadp (.ring i) ∈ l₁.held := by
      rw [lockOf, if_pos hexcl, h₁]
      exact .inl rfl
    have hc₁ : Calling i n ∅ l₁ := h₁ ▸ h.lock _
    refine (hc₁.wakeUp hheld₁).bind fun _ l₂ h₂ ↦ ?_
    have hc₂ : Calling i n {WaitQueue.ring i} l₂ := by
      rw [h₂]
      simpa only [insert_empty_eq] using hc₁.call (.ring i)
    refine (pollKeeps_unlock (by rw [h₂, h₁]; exact .inl rfl)).bind fun _ l₃ h₃ ↦ ?_
    have hc₃ : Calling i n {WaitQueue.ring i} l₃ := h₃ ▸ hc₂.unlock _
    refine Program.Keeps.bind (P := fun _ l' ↦ Calling i n (irqQueues dadp i) l')
      (.onlyIf (fun hmain ↦ ?_) fun hmain ↦ ?_) fun _ _ h _ ↦ h
    · refine (pollKeeps_lock .core).bind fun _ l₄ h₄ ↦ ?_
      have hc₄ : Calling i n {WaitQueue.ring i} l₄ := h₄ ▸ hc₃.lock _
      refine (hc₄.wakeUp (q := .rx) (by rw [h₄]; exact .inl rfl)).bind fun _ l₅ h₅ ↦ ?_
      refine (pollKeeps_unlock (by rw [h₅, h₄]; exact .inl rfl)).mono fun _ l₆ h₆ ↦ ?_
      rw [h₆, h₅]
      exact hall ((hc₄.call .rx).unlock .core) (.inr rfl) fun _ ↦ .inl rfl
    · exact hall hc₃ rfl fun h ↦ nomatch h.symm.trans hmain
  | false =>
    have hlock : ∀ q, lockOf dadp q = .core := fun q ↦ by
      cases q with
      | rx => rfl
      | ring j => rw [lockOf, hexcl, if_neg Bool.false_ne_true]
    refine (pollKeeps_lock .core).bind fun _ l₁ h₁ ↦ ?_
    have hc₁ : Calling i n ∅ l₁ := h₁ ▸ h.lock _
    have hheld₁ : SpinLock.core ∈ l₁.held := h₁ ▸ .inl rfl
    refine (hc₁.wakeUp (q := .ring i) (by rwa [hlock])).bind fun _ l₂ h₂ ↦ ?_
    have hc₂ : Calling i n (insert (.ring i) ∅) l₂ := h₂ ▸ hc₁.call (.ring i)
    have hheld₂ : SpinLock.core ∈ l₂.held := h₂ ▸ hheld₁
    refine Program.Keeps.bind
      (P := fun _ l' ↦ Calling i n (irqQueues dadp i) l' ∧ SpinLock.core ∈ l'.held)
      (.onlyIf (fun hmain ↦ ?_) fun hmain ↦ ?_) fun _ l₃ h₃ ↦ ?_
    · refine (hc₂.wakeUp (q := .rx) (by rwa [hlock])).mono fun _ l₃ h₃ ↦ ?_
      rw [h₃]
      exact ⟨hall (hc₂.call .rx) (.inr (.inl rfl)) fun _ ↦ .inl rfl, hheld₂⟩
    · exact ⟨hall hc₂ (.inl rfl) (fun h ↦ nomatch h.symm.trans hmain), hheld₂⟩
    · refine (pollKeeps_unlock h₃.2).bind fun _ l₄ h₄ _ ↦ ?_
      rw [h₄]
      exact h₃.1.unlock .core

end

/-- What `syncLoop` has found out when it comes to ring `i`. -/
structure SyncInv (dadp : PollAdapter) (all : Bool) (rfirst i : ℕ) (coreLock : CoreLock)
    (revents : ℕ) (l : Knows) : Prop where
  locked : coreLock = .lockedCl → SpinLock.core ∈ l.held
  noCl : coreLock = .noCl → all = false ∧ dadp.exclLocks = true
  quiet : revents = 0 → ∀ j, rfirst ≤ j → j < i → (queueOf all j, j) ∈ l.quiet ∧
    (all = false → queueOf all j ∈ l.waits)

section

variable {dadp : PollAdapter} {all : Bool} {rfirst i n doRx revents t : ℕ} {coreLock : CoreLock}
  {l : Knows}

theorem SyncInv.lock (h : SyncInv dadp all rfirst i coreLock revents l) (x : SpinLock) :
    SyncInv dadp all rfirst i coreLock revents (l.lock x) :=
  ⟨fun hc ↦ .inr (h.locked hc), h.noCl, h.quiet⟩

theorem SyncInv.sync (h : SyncInv dadp all rfirst i coreLock revents l) (q : WaitQueue) :
    SyncInv dadp all rfirst i coreLock revents (l.sync q i) :=
  ⟨h.locked, h.noCl, h.quiet⟩

theorem SyncInv.core (h : SyncInv dadp all rfirst i coreLock revents l)
    (hneed : coreLock ≠ .needCl) (hno : ¬(all = false ∧ dadp.exclLocks = true)) :
    SpinLock.core ∈ l.held := by
  cases coreLock with
  | noCl => exact absurd (h.noCl rfl) hno
  | needCl => exact absurd rfl hneed
  | lockedCl => exact h.locked rfl

/-- By then the lock is held under which the queue of the ring is woken. -/
theorem SyncInv.lockOf_mem (h : SyncInv dadp all rfirst i coreLock revents l)
    (hneed : coreLock ≠ .needCl) (hqueue : dadp.exclLocks = true → SpinLock.queue i ∈ l.held) :
    lockOf dadp (queueOf all i) ∈ l.held := by
  cases all with
  | true => exact h.core hneed fun hno ↦ nomatch hno.1
  | false =>
    change (if dadp.exclLocks then SpinLock.queue i else .core) ∈ l.held
    cases hexcl : dadp.exclLocks with
    | true => exact hqueue hexcl
    | false => exact h.core hneed fun hno ↦ nomatch hexcl.symm.trans hno.2

theorem SyncInv.unlock (h : SyncInv dadp all rfirst i coreLock revents l) (k : ℕ) :
    SyncInv dadp all rfirst i coreLock revents (l.unlock dadp (.queue k)) := by
  refine ⟨fun hc ↦ ⟨h.locked hc, nofun⟩, h.noCl, fun hr j hj hji ↦ ?_⟩
  obtain ⟨hquiet, hwaits⟩ := h.quiet hr j hj hji
  refine ⟨⟨hquiet, ?_⟩, hwaits⟩
  cases hall : all with
  | true => exact .inl nofun
  | false => exact .inr (hall ▸ hwaits hall)

theorem revents_eq_zero (hdo : doRx ≠ 0) {error : Bool} {avail : ℕ}
    (h : (if avail > 0 then (if error then revents ||| pollErr else revents) ||| doRx
      else if error then revents ||| pollErr else revents) = 0) : revents = 0 ∧ avail = 0 := by
  by_cases havail : avail > 0
  · rw [if_pos havail, Nat.or_eq_zero_iff] at h
    exact absurd h.2 hdo
  · rw [if_neg havail] at h
    cases error with
    | true => exact ⟨(Nat.or_eq_zero_iff.1 h).1, by omega⟩
    | false => exact ⟨h, by omega⟩

/-- A poll waits for a ring that it finds empty, unless it is to wait for all of them. -/
theorem SyncInv.find (h : SyncInv dadp all rfirst i coreLock revents l) (avail : ℕ) {revents' : ℕ}
    (hrevents : revents' = 0 → revents = 0 ∧ avail = 0) {l' : Knows}
    (hl' : l' = if (decide (avail = 0) && !all) = true then
        (l.find (queueOf all i) i avail).wait (.ring i)
      else l.find (queueOf all i) i avail) :
    SyncInv dadp all rfirst (i + 1) coreLock revents' l' := by
  have hheld : l'.held = l.held := by
    rw [hl']
    by_cases hwait : (decide (avail = 0) && !all) = true
    · rw [if_pos hwait]
      exact Knows.find_held
    · rw [if_neg hwait]
      exact Knows.find_held
  refine ⟨fun hc ↦ hheld ▸ h.locked hc, h.noCl, fun hr j hj hji ↦ ?_⟩
  obtain ⟨hr, rfl⟩ := hrevents hr
  rw [decide_eq_true rfl, Bool.true_and, Knows.find_zero] at hl'
  have hquiet : (queueOf all j, j) ∈ l'.quiet := by
    have hmem : (queueOf all j, j) ∈ insert (queueOf all i, i) l.quiet := by
      by_cases hji' : j = i
      · exact .inl (by rw [hji'])
      · exact .inr (h.quiet hr j hj (by omega)).1
    cases all with
    | true => exact hl' ▸ hmem
    | false => exact hl' ▸ hmem
  refine ⟨hquiet, fun hall ↦ ?_⟩
  subst hall
  rw [hl']
  by_cases hji' : j = i
  · exact .inl (by rw [hji']; rfl)
  · exact .inr ((h.quiet hr j hj (by omega)).2 rfl)

theorem pollKeeps_syncLoop (hdo : doRx ≠ 0) (h : SyncInv dadp all rfirst i coreLock revents l) :
    PollKeeps dadp t (fun r l' ↦ SyncInv dadp all rfirst (i + n) r.1 r.2 l')
      (syncLoop dadp all doRx n i coreLock revents) l := by
  induction n generalizing i coreLock revents l with
  | zero => exact h
  | succ n ih =>
    rw [syncLoop]
    refine Program.Keeps.bind (P := fun _ l' ↦ SyncInv dadp all rfirst i
        (if coreLock = .needCl then .lockedCl else coreLock) revents l')
      (.onlyIf (fun hneed ↦ ?_) fun hneed ↦ ?_) fun _ l₁ h₁ ↦ ?_
    · rw [if_pos (of_decide_eq_true hneed)]
      refine (pollKeeps_lock .core).mono fun _ l₁ h₁ ↦ ?_
      rw [h₁]
      exact ⟨fun _ ↦ .inl rfl, nofun, h.quiet⟩
    · rw [if_neg (of_decide_eq_false hneed)]
      exact h
    have hneed : (if coreLock = .needCl then .lockedCl else coreLock) ≠ CoreLock.needCl := by
      by_cases hc : coreLock = .needCl
      · rw [if_pos hc]
        exact nofun
      · rwa [if_neg hc]
    generalize (if coreLock = .needCl then CoreLock.lockedCl else coreLock) = coreLock at h₁ hneed ⊢
    refine Program.Keeps.bind (P := fun _ l' ↦ SyncInv dadp all rfirst i coreLock revents l' ∧
        (dadp.exclLocks = true → SpinLock.queue i ∈ l'.held))
      (.onlyIf (fun hexcl ↦ ?_) fun hexcl ↦ ?_) fun _ l₂ h₂ ↦ ?_
    · refine (pollKeeps_lock (.queue i)).mono fun _ l₂ h₂ ↦ ?_
      rw [h₂]
      exact ⟨h₁.lock _, fun _ ↦ .inl rfl⟩
    · exact ⟨h₁, fun h ↦ nomatch h.symm.trans hexcl⟩
    obtain ⟨h₂, hqueue⟩ := h₂
    refine (pollKeeps_rxSync (h₂.lockOf_mem hneed hqueue) i).bind fun error l₃ h₃ ↦ ?_
    refine (pollKeeps_loadAvail (q := queueOf all i) (by rw [h₃]; exact .inl rfl)).bind
      fun avail l₄ h₄ ↦ ?_
    have hsync : SyncInv dadp all rfirst i coreLock revents l₃ := h₃ ▸ h₂.sync (queueOf all i)
    have hheld : l₄.held = l₂.held := by
      rw [h₄, Knows.find_held, h₃]
      rfl
    refine Program.Keeps.bind (P := fun _ l' ↦ SyncInv dadp all rfirst (i + 1) coreLock
        (if avail > 0 then (if error then revents ||| pollErr else revents) ||| doRx
          else if error then revents ||| pollErr else revents) l' ∧
        (dadp.exclLocks = true → SpinLock.queue i ∈ l'.held))
      (.onlyIf (fun hwait ↦ ?_) fun hwait ↦ ?_) fun _ l₅ h₅ ↦ ?_
    · refine (pollKeeps_wait (.ring i)).mono fun _ l₅ h₅ ↦ ?_
      refine ⟨hsync.find avail (revents_eq_zero hdo) ?_, fun hexcl ↦ ?_⟩
      · rw [h₅, h₄, if_pos hwait]
      · rw [h₅]
        exact hheld ▸ hqueue hexcl
    · refine ⟨hsync.find avail (revents_eq_zero hdo) ?_, fun hexcl ↦ hheld ▸ hqueue hexcl⟩
      rw [h₄, if_neg (Bool.eq_false_iff.1 hwait)]
    obtain ⟨h₅, hqueue₅⟩ := h₅
    refine Program.Keeps.bind (P := fun _ l' ↦ SyncInv dadp all rfirst (i + 1) coreLock _ l')
      (.onlyIf (fun hexcl ↦ ?_) fun _ ↦ h₅) fun _ l₆ h₆ ↦ ?_
    · refine (pollKeeps_unlock (hqueue₅ hexcl)).mono fun _ l₆ h₆ ↦ ?_
      rw [h₆]
      exact h₅.unlock i
    · rw [Nat.add_comm n, ← Nat.add_assoc]
      exact ih h₆

theorem pollKeeps_availLoop :
    PollKeeps dadp t (fun r l' ↦ l' = l ∧ (r = (doRx, revents) ∨ r.1 = 0 ∧ r.2 ≠ 0))
      (availLoop n i doRx revents) l := by
  induction n generalizing i with
  | zero => exact ⟨rfl, .inl rfl⟩
  | succ n ih =>
    rw [availLoop]
    by_cases hdo : doRx = 0
    · rw [if_pos hdo]
      exact ⟨rfl, .inl rfl⟩
    · rw [if_neg hdo]
      refine (pollKeeps_load i).bind fun avail l' hl' ↦ ?_
      rw [hl']
      by_cases havail : avail > 0
      · rw [if_pos havail]
        have hne : revents ||| doRx ≠ 0 := fun h ↦ hdo (Nat.or_eq_zero_iff.1 h).2
        cases n with
        | zero => exact ⟨rfl, .inr ⟨rfl, hne⟩⟩
        | succ n =>
          rw [availLoop, if_pos rfl]
          exact ⟨rfl, .inr ⟨rfl, hne⟩⟩
      · rw [if_neg havail]
        exact ih

def Waiting (dadp : PollAdapter) (priv : DpaPriv) (l : Knows) : Prop :=
  ∀ j, priv.rfirst ≤ j → j < pollMaxRx dadp priv →
    (queueOf (checkAll dadp priv) j, j) ∈ l.quiet ∧ queueOf (checkAll dadp priv) j ∈ l.waits

theorem pollKeeps_dpaPoll (priv : Option DpaPriv) (pwait : Option ℕ) :
    PollKeeps dadp t (fun revents l' ↦ revents = 0 → pollDoRx pwait ≠ 0 →
      ∀ p, priv = some p → dadp.enabled = true ∧ Waiting dadp p l') (dpaPoll dadp priv pwait) l := by
  cases priv with
  | none => exact fun h ↦ absurd h (by decide)
  | some priv =>
    rw [dpaPoll]
    by_cases he : dadp.enabled = false
    · rw [if_pos he]
      exact fun h ↦ absurd h (by decide)
    rw [if_neg he]
    refine pollKeeps_availLoop.bind fun ⟨doRx, revents⟩ l₁ h₁ ↦ ?_
    have hfound : revents = 0 → doRx = pollDoRx pwait := by
      intro hr
      rcases h₁.2 with h | ⟨-, hne⟩
      · exact congrArg Prod.fst h
      · exact absurd hr hne
    have hskipped : doRx = 0 → pollDoRx pwait ≠ 0 → revents ≠ 0 :=
      fun hd hp hr ↦ hp (hfound hr ▸ hd)
    have hstart : ∀ l, SyncInv dadp (checkAll dadp priv) priv.rfirst priv.rfirst
        (if (checkAll dadp priv || !dadp.exclLocks) = true then .needCl else .noCl) revents l := by
      refine fun l ↦ ⟨fun hc ↦ ?_, fun hc ↦ ?_, fun _ j hj hji ↦ absurd hji hj.not_gt⟩
      · split_ifs at hc
      · split_ifs at hc with hcond
        obtain ⟨hall, hexcl⟩ := Bool.or_eq_false_iff.1 (Bool.eq_false_iff.2 hcond)
        exact ⟨hall, by simpa using hexcl⟩
    refine Program.Keeps.bind (P := fun (r : CoreLock × ℕ) l' ↦
        (r.1 = .lockedCl → SpinLock.core ∈ l'.held) ∧
        (r.2 = 0 → pollDoRx pwait ≠ 0 → doRx ≠ 0 ∧ SyncInv dadp (checkAll dadp priv) priv.rfirst
          (priv.rfirst + (pollMaxRx dadp priv - priv.rfirst)) r.1 r.2 l')) ?_
      fun ⟨coreLock, revents⟩ l₂ ⟨hcore, hsync⟩ ↦ ?_
    · by_cases hdo : doRx = 0
      · rw [if_pos hdo]
        exact ⟨(hstart l₁).locked, fun hr hp ↦ absurd hr (hskipped hdo hp)⟩
      · rw [if_neg hdo]
        refine (pollKeeps_syncLoop hdo (hstart l₁)).mono fun r l₂ h₂ ↦ ?_
        exact ⟨h₂.locked, fun _ _ ↦ ⟨hdo, h₂⟩⟩
    have hrange : ∀ j, j < pollMaxRx dadp priv →
        j < priv.rfirst + (pollMaxRx dadp priv - priv.rfirst) := fun j hj ↦ by omega
    refine Program.Keeps.bind (P := fun _ l' ↦ (coreLock = .lockedCl → SpinLock.core ∈ l'.held) ∧
        (revents = 0 → pollDoRx pwait ≠ 0 → Waiting dadp priv l'))
      (.onlyIf (fun hwait ↦ ?_) fun hwait ↦ ?_) fun _ l₃ ⟨hcore₃, hwaiting⟩ ↦ ?_
    · refine (pollKeeps_wait .rx).mono fun _ l₃ h₃ ↦ ?_
      rw [h₃]
      refine ⟨hcore, fun hr hp j hj hji ↦ ?_⟩
      obtain ⟨hquiet, -⟩ := (hsync hr hp).2.quiet hr j hj (hrange j hji)
      have hall : checkAll dadp priv = true :=
        (Bool.and_eq_true_iff.1 (Bool.and_eq_true_iff.1 hwait).1).1
      refine ⟨hquiet, .inl ?_⟩
      rw [hall]
      rfl
    · refine ⟨hcore, fun hr hp j hj hji ↦ ?_⟩
      obtain ⟨hdo, hinv⟩ := hsync hr hp
      obtain ⟨hquiet, hwaits⟩ := hinv.quiet hr j hj (hrange j hji)
      rw [decide_eq_true hr, decide_eq_true hdo, Bool.and_true, Bool.and_true] at hwait
      exact ⟨hquiet, hwaits hwait⟩
    refine Program.Keeps.bind (P := fun _ l' ↦
        revents = 0 → pollDoRx pwait ≠ 0 → Waiting dadp priv l')
      (.onlyIf (fun hlocked ↦ ?_) fun _ ↦ hwaiting) fun _ l₄ h₄ hr hp p hpriv ↦ ?_
    · refine (pollKeeps_unlock (hcore₃ (of_decide_eq_true hlocked))).mono fun _ l₄ h₄ hr hp ↦ ?_
      rw [h₄]
      intro j hj hji
      obtain ⟨hquiet, hwaits⟩ := hwaiting hr hp j hj hji
      exact ⟨⟨hquiet, .inr hwaits⟩, hwaits⟩
    · obtain rfl := Option.some.inj hpriv
      exact ⟨Bool.eq_true_of_not_eq_false he, h₄ hr hp⟩

end

section

variable {dadp : PollAdapter} {told : WaitQueue → ℕ → ℕ} {ls : ℕ → Knows} {l l' : Knows}
  {s s' : PollState} {t : ℕ}

def Returns (dadp : PollAdapter) : PollCall → ℕ → Knows → Prop
  | .poll priv pwait, revents, l => revents = 0 → pollDoRx pwait ≠ 0 →
      ∀ p, priv = some p → dadp.enabled = true ∧ Waiting dadp p l
  | .giveUp, _, _ => True
  | .rxIrq i n, _, l => dadp.enabled = true → Calling i n (irqQueues dadp i) l

theorem Later.of_eq (hown : s'.owner = s.owner)
    (hwait : ∀ q, s'.waiting q t = s.waiting q t) (hrings : s'.rings = s.rings)
    (hwoken : s'.woken t = s.woken t) (hasleep : s'.asleep t = s.asleep t) : Later s s' t where
  owner _ hx := hown ▸ hx
  waiting q hq := (hwait q).trans hq
  arrived i := (congrArg (fun f ↦ (f i).arrived) hrings).ge
  consumed i := (congrArg (fun f ↦ (f i).consumed) hrings).ge
  harvested i := (congrArg (fun f ↦ (f i).consumed + (f i).avail) hrings).ge
  woken h := hwoken ▸ h
  asleep := hasleep

theorem Knows.Holds.wake (h : l.Holds dadp told t s) (hown : s'.owner = s.owner)
    (hrings : s'.rings = s.rings) (hasleep : s'.asleep t = none) :
    { Knows.empty with held := l.held, seen := l.seen, called := l.called }.Holds dadp told t s' where
  held x hx := hown ▸ h.held x hx
  waits _ hq := hq.elim
  seen z hz := hrings ▸ h.seen z hz
  synced _ hz := hz.elim
  quiet _ hz := hz.elim
  called := h.called
  asleep z _ hz := by
    rw [hasleep] at hz
    cases hz

theorem PollInv.freeWait (h : PollInv dadp ls s) (t : ℕ) :
    ∃ l, PollInv dadp (update ls t l) (s.freeWait t) := by
  refine ⟨_, h.move fun told htraffic hknows ↦ ⟨told, htraffic.of_rings rfl,
    hknows.wake rfl rfl (update_self ..), fun u l hut hu ↦ hu.later (.of_eq rfl ?_ rfl rfl ?_)⟩⟩
  · exact fun q ↦ update_of_ne hut ..
  · exact update_of_ne hut ..

theorem polling_kept (dadp : PollAdapter) :
    Threads.Kept (polling dadp) (fun _ _ _ ↦ True) (fun _ _ _ ↦ True) (PollInv dadp)
      (fun _ ↦ Returns dadp) (fun _ _ ↦ True) where
  enter ls s t k p s' hinv _ _ henter := by
    cases k with
    | poll priv pwait =>
      obtain ⟨-, heq⟩ := Option.ite_none_right_eq_some.1 henter
      obtain ⟨rfl, rfl⟩ := Prod.mk.inj (Option.some.inj heq)
      refine ⟨_, hinv.move fun told htraffic hknows ↦ ⟨told, htraffic.of_rings rfl,
        hknows.wake rfl rfl (update_self ..), fun u l hut hu ↦ hu.later
          (.of_eq rfl (fun _ ↦ rfl) rfl (update_of_ne hut ..) (update_of_ne hut ..))⟩, ?_⟩
      exact pollKeeps_dpaPoll priv pwait
    | giveUp =>
      obtain ⟨rfl, rfl⟩ := Prod.mk.inj (Option.some.inj henter)
      obtain ⟨l, hl⟩ := hinv.freeWait t
      exact ⟨l, hl, trivial⟩
    | rxIrq i n =>
      obtain ⟨⟨hawake, hn⟩, heq⟩ := Option.ite_none_right_eq_some.1 henter
      obtain ⟨rfl, rfl⟩ := Prod.mk.inj (Option.some.inj heq)
      refine ⟨{ Knows.empty with seen := {(i, n)} }, hinv.move fun told htraffic _ ↦
        ⟨told, htraffic, ?_, fun _ _ _ h ↦ h⟩, pollKeeps_dpaRxIrq ⟨rfl, rfl, rfl, nofun⟩⟩
      refine ⟨nofun, nofun, ?_, nofun, nofun, nofun, fun z _ hz ↦ ?_⟩
      · rintro z rfl
        exact hn
      · rw [hawake] at hz
        cases hz
  leave ls s t k x s' hinv hreturns hleave := by
    cases k with
    | poll priv pwait =>
      change (if x = 0 then some _ else some (s.freeWait t)) = some s' at hleave
      by_cases hx : x = 0
      · rw [if_pos hx] at hleave
        obtain rfl := Option.some.inj hleave
        refine ⟨ls t, hinv.move fun told htraffic hknows ↦ ⟨told, htraffic.of_rings rfl, ?_,
          fun u l hut hu ↦ hu.later (.of_eq rfl (fun _ ↦ rfl) rfl rfl (update_of_ne hut ..))⟩,
          trivial⟩
        refine ⟨hknows.held, hknows.waits, hknows.seen, hknows.synced, hknows.quiet, hknows.called,
          fun z p hz hp i ⟨hdo, p', hp', hfirst, hlast⟩ ↦ ?_⟩
        obtain rfl := Option.some.inj ((update_self t _ s.asleep).symm.trans hz)
        obtain rfl := Option.some.inj (hp.symm.trans hp')
        obtain ⟨he, hwaiting⟩ := hreturns hx hdo p hp
        exact ⟨he, hwaiting i hfirst hlast⟩
      · rw [if_neg hx] at hleave
        obtain rfl := Option.some.inj hleave
        obtain ⟨l, hl⟩ := hinv.freeWait t
        exact ⟨l, hl, trivial⟩
    | giveUp =>
      obtain rfl := Option.some.inj hleave
      exact ⟨ls t, by rwa [update_eq_self], trivial⟩
    | rxIrq i n =>
      obtain rfl := Option.some.inj hleave
      refine ⟨ls t, hinv.move fun told htraffic hknows ↦ ⟨told, ?_, ?_, ?_⟩, trivial⟩
      · refine htraffic.of_setRing (htraffic.counts i) le_rfl (fun he ↦ ?_) fun he hnum ↦ ?_
        · exact max_le (htraffic.ring he i)
            (hknows.called _ ((hreturns he).called (.ring i) (.inl rfl)))
        · exact max_le (htraffic.rx he hnum i)
            (hknows.called _ ((hreturns he).called .rx (.inr ⟨rfl, hnum⟩)))
      · exact hknows.later (.of_setRing le_rfl le_rfl le_rfl)
      · exact fun u l _ hu ↦ hu.later (.of_setRing le_rfl le_rfl le_rfl)
  outside ls s e s' hinv houtside := by
    cases e with
    | arrive i =>
      obtain rfl := Option.some.inj houtside
      exact hinv.setRing (Nat.le_succ _) le_rfl le_rfl (fun h ↦ h.trans (Nat.le_succ _)) rfl
    | consume i n =>
      obtain ⟨hn, heq⟩ := Option.ite_none_right_eq_some.1 houtside
      obtain rfl := Option.some.inj heq
      have hsum : (s.rings i).consumed + n + ((s.rings i).avail - n) =
          (s.rings i).consumed + (s.rings i).avail := by omega
      exact hinv.setRing le_rfl (Nat.le_add_right _ _) hsum.ge (fun h ↦ hsum.le.trans h) rfl
    | spoil i bad =>
      obtain rfl := Option.some.inj houtside
      exact hinv.setRing le_rfl le_rfl le_rfl id rfl

theorem pollInv_start (dadp : PollAdapter) : PollInv dadp (fun _ ↦ Knows.empty) .start := by
  refine ⟨fun _ _ ↦ 0, ⟨fun _ ↦ le_rfl, fun _ _ ↦ le_rfl, fun _ _ ↦ le_rfl, fun _ _ _ ↦ le_rfl⟩,
    fun t ↦ ⟨nofun, nofun, nofun, nofun, nofun, nofun, nofun⟩⟩

theorem PollInv.no_packet (h : PollInv dadp ls s) {z : Sleeper} {i : ℕ}
    (hasleep : s.asleep t = some z) (hwoken : s.woken t = false) (hi : z.Watches dadp i) :
    (s.rings i).announced ≤ (s.rings i).consumed := by
  obtain ⟨told, htraffic, hknows⟩ := h
  obtain ⟨priv, hpriv, -⟩ := hi.2
  obtain ⟨he, hquiet, -⟩ := (hknows t).asleep z priv hasleep hpriv i hi
  refine le_trans ?_ (((hknows t).quiet _ hquiet).2 hwoken)
  cases hall : checkAll dadp priv with
  | false => exact htraffic.ring he i
  | true =>
    have hnum := of_decide_eq_true (Bool.and_eq_true_iff.1 hall).2
    exact htraffic.rx he (Nat.zero_lt_of_lt hnum) i

end

/-- A caller sleeps and has not been woken, and a ring that it watches holds packet `x`, for which a
`dpa_rx_irq` has completed. -/
def LostWakeup (dadp : PollAdapter) (s : PollState) : Prop :=
  ∃ t z i x, s.asleep t = some z ∧ s.woken t = false ∧ z.Watches dadp i ∧
    (s.rings i).consumed ≤ x ∧ x < (s.rings i).arrived ∧ x < (s.rings i).announced

/-- No order of arrivals, interrupts and polls loses a wake-up. -/
theorem no_lost_wakeup (dadp : PollAdapter) {es : List (Threads.Event ℕ PollCall PollEvent)}
    {c : Threads.Config ℕ PollCall PollState ℕ PollAccess PollAccess.Answer}
    (hrun : run (polling dadp).next es (.start .start) = some c) : ¬LostWakeup dadp c.shared := by
  have hstart : (polling dadp).Good (fun _ _ _ ↦ True) (PollInv dadp) (fun _ ↦ Returns dadp)
      (fun _ _ ↦ True) (fun _ ↦ Knows.empty) (.start .start) :=
    ⟨pollInv_start dadp, nofun, fun _ _ ↦ trivial⟩
  obtain ⟨ls, hgood⟩ := hstart.run (polling_kept dadp) (.of_forall fun c e ↦ by
    cases e with
    | call t k => trivial
    | step t => exact fun _ _ _ _ ↦ trivial
    | outside e => trivial) hrun
  rintro ⟨t, z, i, x, hasleep, hwoken, hi, hx, -, hannounced⟩
  exact absurd (hgood.inv.no_packet hasleep hwoken hi) (not_le.2 (hx.trans_lt hannounced))

def wakeupRun : List (Threads.Event ℕ PollCall PollEvent) :=
  .call 0 (.poll (some ⟨0, 1⟩) none) :: List.replicate 7 (.step 0) ++
    .outside (.arrive 0) :: .call 1 (.rxIrq 0 1) :: List.replicate 8 (.step 1)

theorem no_lost_wakeup_one_ring : ∃ c, run (polling ⟨true, true, 1⟩).next wakeupRun
      (.start .start) = some c ∧ c.shared.woken 0 = true ∧ ¬LostWakeup ⟨true, true, 1⟩ c.shared := by
  have hrun : ((run (polling ⟨true, true, 1⟩).next wakeupRun (.start .start)).map
      fun c ↦ c.shared.woken 0) = some true := by rfl
  obtain ⟨c, hc, hwoken⟩ := Option.map_eq_some_iff.1 hrun
  exact ⟨c, hc, hwoken, no_lost_wakeup _ hc⟩

end Dpa.Kernel
