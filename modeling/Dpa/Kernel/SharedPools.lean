import Dpa.Kernel.Host
import Dpa.Library.Threads

namespace Dpa.Kernel

open Function Library MachineWord Bitmap PoolMemory

structure SharedPools (ι : Type) where
  memory : PoolMemory
  interfaces : ι → Registry
  /-- what each has taken from the pools and not put back; no step reads it -/
  granted : ι → PoolId → ℕ → Bool

/-- A registration or the end of one. For one interface `reg_lock` lets in one of them at a time. -/
inductive RegCall
  | register (regOk : Bool)
  | unregister (k : ℕ)

variable {ι : Type} [DecidableEq ι]

/-- The objects whose bits a store changes are granted if it clears them, and given back if not. -/
def grantedAfter (i : ℕ) (seen word : BitVec 32) (granted : ℕ → Bool) : ℕ → Bool := fun x ↦
  if x / 32 = i ∧ seen.getLsbD (x % 32) ≠ word.getLsbD (x % 32) then seen.getLsbD (x % 32)
  else granted x

def record (t : ι) : PoolAccess → (ι → PoolId → ℕ → Bool) → ι → PoolId → ℕ → Bool
  | .storeWord p i seen word, granted =>
    update granted t (update (granted t) p (grantedAfter i seen word (granted t p)))
  | _, granted => granted

section

variable (pools : PoolId → DpaObjPool) (bufSize : ℕ)

def sharedAccess (t : ι) (a : PoolAccess) (s : SharedPools ι) :
    Option (a.Answer × SharedPools ι) :=
  (access pools a s.memory).map fun r ↦
    (r.1, { s with memory := r.2, granted := record t a s.granted })

/-- Every interface has a thread for its calls. A call does its accesses one at a time. -/
def sharing : Threads ι RegCall Empty (SharedPools ι) Registry PoolAccess PoolAccess.Answer where
  enter t
    | .register regOk, s => some (dpaRegIf pools bufSize regOk (s.interfaces t), s)
    | .unregister k, s => some (dpaDestructor pools k (s.interfaces t), s)
  exec := sharedAccess pools
  leave t _ r s := some { s with interfaces := update s.interfaces t r }
  outside e _ := nomatch e

end

def SharedPools.start (a : DpaMemAllocator) (l : ι → ℕ × ℕ) : SharedPools ι where
  memory := ⟨a.words, false⟩
  interfaces t := dpaAttach (l t).1 (l t).2
  granted _ _ _ := false

/-- The store of a registration that finds its interface unused frees something only if the interface
still holds it. -/
def FreesOwn (i : ℕ) (seen word : BitVec 32) (granted : ℕ → Bool) : Prop :=
  seen ≠ word ∧ ∀ j < 32, seen.getLsbD j = false → word.getLsbD j = true →
    granted (i * 32 + j) = true

/-- A store finds what its load has seen, and what it releases is not released a second time. -/
def Undisturbed (t : ι) : PoolAccess → SharedPools ι → Prop
  | .storeWord p i seen word, s => (s.memory.words p).bitmap i = seen ∧
      (p = .ringPool → (s.interfaces t).difs = [] → FreesOwn i seen word (s.granted t p))
  | .storeFree p seen _, s => (s.memory.words p).objFree = seen
  | _, _ => True

/-- The counters are right, what is allocated has one owner, and what is owned is allocated. -/
structure PoolsAgree (pools : PoolId → DpaObjPool) (s : SharedPools ι) : Prop where
  count : ∀ p, (s.memory.words p).objFree =
    (bits 2 (pools p).objTotal (s.memory.words p).bitmap).card
  owner : ∀ p x, 2 ≤ x → x < (pools p).objTotal → bit (s.memory.words p).bitmap x = false →
    ∃! t, x ∈ holding pools (s.interfaces t) p
  allocated : ∀ t p, (holding pools (s.interfaces t) p).Nodup ∧
    ∀ x ∈ holding pools (s.interfaces t) p, (2 ≤ x ∧ x < (pools p).objTotal) ∧
      bit (s.memory.words p).bitmap x = false

/-- Where a thread stands in an access: it may have found objects left, the one to take or how far
there is none, and be about to count what it took or gave back. -/
inductive Stage
  | rest (locked : Bool)
  | scan (p : PoolId) (i : ℕ)
  | found (p : PoolId) (x : ℕ)
  | took (p : PoolId)
  | gave (p : PoolId) (locked : Bool)

namespace Stage

def locked : Stage → Bool
  | rest b => b
  | gave _ b => b
  | _ => true

def owed : Stage → PoolId → ℤ
  | took q, p => if p = q then -1 else 0
  | gave q _, p => if p = q then 1 else 0
  | _, _ => 0

def Fits (pools : PoolId → DpaObjPool) (m : PoolMemory) : Stage → Prop
  | rest _ => True
  | scan p i => 0 < (m.words p).objFree ∧
      ∃ x ∈ bits 2 (pools p).objTotal (m.words p).bitmap, i ≤ x / 32
  | found p x => 0 < (m.words p).objFree ∧ x < (pools p).objTotal ∧
      bit (m.words p).bitmap x = true
  | took p => 0 < (m.words p).objFree
  | gave _ _ => True

end Stage

structure Share where
  reg : Registry
  owned : PoolId → Finset ℕ
  stage : Stage

structure Share.Holds (pools : PoolId → DpaObjPool) (t : ι) (l : Share) (s : SharedPools ι) :
    Prop where
  reg : s.interfaces t = l.reg
  granted : ∀ p x, s.granted t p x = decide (x ∈ l.owned p)
  range : ∀ p, ∀ x ∈ l.owned p, 2 ≤ x ∧ x < (pools p).objTotal
  locked : l.stage.locked = true → s.memory.locked = true
  fits : l.stage.Fits pools s.memory

structure PoolsShared [Fintype ι] (pools : PoolId → DpaObjPool) (ls : ι → Share)
    (s : SharedPools ι) : Prop where
  holds : ∀ t, (ls t).Holds pools t s
  alone : ∀ t u, (ls t).stage.locked = true → (ls u).stage.locked = true → t = u
  apart : ∀ t u p x, x ∈ (ls t).owned p → x ∈ (ls u).owned p → t = u
  free : ∀ p, ∀ x < (pools p).objTotal,
    bit (s.memory.words p).bitmap x = true ↔ 2 ≤ x ∧ ∀ t, x ∉ (ls t).owned p
  count : ∀ p, ((s.memory.words p).objFree : ℤ) + ∑ t, (ls t).stage.owed p =
    (bits 2 (pools p).objTotal (s.memory.words p).bitmap).card

section

variable [Fintype ι] {pools : PoolId → DpaObjPool} {ls : ι → Share} {l l' : Share}
  {s s' : SharedPools ι} {t u : ι} {p q : PoolId} {x : ℕ} {st : Stage}

theorem sum_update (f : Share → ℤ) (ls : ι → Share) (t : ι) (l : Share) :
    ∑ u, f (update ls t l u) = ∑ u, f (ls u) - f (ls t) + f l := by
  have hupdate : (fun u ↦ f (update ls t l u)) = update (fun u ↦ f (ls u)) t (f l) := by
    funext u
    exact apply_update (fun _ ↦ f) ls t l u
  rw [hupdate, Finset.sum_update_of_mem (Finset.mem_univ t),
    Finset.sum_eq_add_sum_sdiff_singleton_of_mem (Finset.mem_univ t) fun u ↦ f (ls u)]
  ring

theorem Stage.fits_of_unlocked {m : PoolMemory} (h : st.locked = false) : st.Fits pools m := by
  cases st with
  | rest b => trivial
  | gave p b => trivial
  | scan p i => cases h
  | found p x => cases h
  | took p => cases h

theorem Stage.owed_nonneg (h : st.locked = false) (p : PoolId) : 0 ≤ st.owed p := by
  cases st with
  | rest b => exact le_rfl
  | gave q b =>
    show 0 ≤ if p = q then 1 else 0
    split_ifs
    · decide
    · decide
  | scan p i => cases h
  | found p x => cases h
  | took p => cases h

theorem PoolsShared.move (h : PoolsShared pools ls s) (hself : l.Holds pools t s')
    (hother : ∀ u, u ≠ t → (ls u).Holds pools u s')
    (halone : l.stage.locked = true → ∀ u, u ≠ t → (ls u).stage.locked = false)
    (hapart : ∀ p, ∀ x ∈ l.owned p, ∀ u, u ≠ t → x ∉ (ls u).owned p)
    (hfree : ∀ p, ∀ x < (pools p).objTotal, bit (s'.memory.words p).bitmap x = true ↔
      2 ≤ x ∧ x ∉ l.owned p ∧ ∀ u, u ≠ t → x ∉ (ls u).owned p)
    (hcount : ∀ p, ((s'.memory.words p).objFree : ℤ) + l.stage.owed p +
        (bits 2 (pools p).objTotal (s.memory.words p).bitmap).card =
      (s.memory.words p).objFree + (ls t).stage.owed p +
        (bits 2 (pools p).objTotal (s'.memory.words p).bitmap).card) :
    PoolsShared pools (update ls t l) s' := by
  constructor
  case holds =>
    intro u
    by_cases hu : u = t
    · rw [hu, update_self]
      exact hself
    · rw [update_of_ne hu]
      exact hother u hu
  case alone =>
    intro u v hu hv
    by_cases hut : u = t
    · by_cases hvt : v = t
      · rw [hut, hvt]
      · rw [hut, update_self] at hu
        rw [update_of_ne hvt, halone hu v hvt] at hv
        cases hv
    · rw [update_of_ne hut] at hu
      by_cases hvt : v = t
      · rw [hvt, update_self] at hv
        rw [halone hv u hut] at hu
        cases hu
      · rw [update_of_ne hvt] at hv
        exact h.alone u v hu hv
  case apart =>
    intro u v p x hu hv
    by_cases hut : u = t
    · by_cases hvt : v = t
      · rw [hut, hvt]
      · rw [hut, update_self] at hu
        rw [update_of_ne hvt] at hv
        exact absurd hv (hapart p x hu v hvt)
    · rw [update_of_ne hut] at hu
      by_cases hvt : v = t
      · rw [hvt, update_self] at hv
        exact absurd hu (hapart p x hv u hut)
      · rw [update_of_ne hvt] at hv
        exact h.apart u v p x hu hv
  case free =>
    intro p x hx
    rw [hfree p x hx, forall_update_iff ls fun _ l ↦ x ∉ l.owned p]
  case count =>
    intro p
    have hsum := sum_update (fun l ↦ l.stage.owed p) ls t l
    have hold := h.count p
    have hnew := hcount p
    rw [hsum]
    omega

theorem PoolsShared.free_iff (h : PoolsShared pools ls s) (t : ι) (hx : x < (pools p).objTotal) :
    bit (s.memory.words p).bitmap x = true ↔
      2 ≤ x ∧ x ∉ (ls t).owned p ∧ ∀ u, u ≠ t → x ∉ (ls u).owned p := by
  rw [h.free p x hx]
  constructor
  · exact fun hx ↦ ⟨hx.1, hx.2 t, fun u _ ↦ hx.2 u⟩
  · rintro ⟨hlow, hself, hother⟩
    refine ⟨hlow, fun u ↦ ?_⟩
    by_cases hu : u = t
    · exact hu ▸ hself
    · exact hother u hu

omit [DecidableEq ι] in
theorem PoolsShared.apart_of_ne (h : PoolsShared pools ls s) (hx : x ∈ (ls t).owned p) (hu : u ≠ t) :
    x ∉ (ls u).owned p :=
  fun hx' ↦ hu (h.apart u t p x hx' hx)

omit [DecidableEq ι] in
theorem PoolsShared.unlocked (h : PoolsShared pools ls s) (ht : (ls t).stage.locked = true)
    (hu : u ≠ t) : (ls u).stage.locked = false := by
  rw [Bool.eq_false_iff]
  exact fun hlocked ↦ hu (h.alone u t hlocked ht)

theorem PoolsShared.goto (h : PoolsShared pools ls s) (st : Stage) (hlocked : st.locked = (ls t).stage.locked)
    (howed : st.owed = (ls t).stage.owed) (hfits : st.Fits pools s.memory) :
    PoolsShared pools (update ls t { ls t with stage := st }) s := by
  have hself := h.holds t
  refine h.move ⟨hself.reg, hself.granted, hself.range, fun hst ↦ hself.locked (hlocked ▸ hst),
    hfits⟩ (fun u _ ↦ h.holds u) (fun hst u hu ↦ h.unlocked (hlocked ▸ hst) hu)
    (fun p x hx u hu ↦ h.apart_of_ne hx hu) (fun p x hx ↦ h.free_iff t hx) fun p ↦ ?_
  dsimp only
  rw [howed]

theorem PoolsShared.lock (h : PoolsShared pools ls s) (ht : (ls t).stage = .rest false)
    (hfree : s.memory.locked = false) :
    PoolsShared pools (update ls t { ls t with stage := .rest true })
      { s with memory := { s.memory with locked := true } } := by
  have hunlocked : ∀ u, (ls u).stage.locked = false := by
    intro u
    rw [Bool.eq_false_iff]
    intro hu
    rw [(h.holds u).locked hu] at hfree
    cases hfree
  refine h.move ?_ (fun u _ ↦ ?_) (fun _ u _ ↦ hunlocked u) (fun p x hx u hu ↦ h.apart_of_ne hx hu)
    (fun p x hx ↦ h.free_iff t hx) fun p ↦ ?_
  · exact ⟨(h.holds t).reg, (h.holds t).granted, (h.holds t).range, fun _ ↦ rfl, trivial⟩
  · exact ⟨(h.holds u).reg, (h.holds u).granted, (h.holds u).range, fun _ ↦ rfl,
      Stage.fits_of_unlocked (hunlocked u)⟩
  · rw [ht]
    rfl

theorem PoolsShared.unlock (h : PoolsShared pools ls s) (ht : (ls t).stage = .rest true) :
    PoolsShared pools (update ls t { ls t with stage := .rest false })
      { s with memory := { s.memory with locked := false } } := by
  have hlocked : (ls t).stage.locked = true := by
    rw [ht]
    rfl
  refine h.move ?_ (fun u hu ↦ ?_) nofun (fun p x hx u hu ↦ h.apart_of_ne hx hu)
    (fun p x hx ↦ h.free_iff t hx) fun p ↦ ?_
  · exact ⟨(h.holds t).reg, (h.holds t).granted, (h.holds t).range, nofun, trivial⟩
  · have hunlocked := h.unlocked hlocked hu
    refine ⟨(h.holds u).reg, (h.holds u).granted, (h.holds u).range, fun hu' ↦ ?_,
      Stage.fits_of_unlocked hunlocked⟩
    rw [hunlocked] at hu'
    cases hu'
  · rw [ht]
    rfl

/-- A store changes the words of one pool, and perhaps what its thread owns of it. -/
theorem PoolsShared.store (h : PoolsShared pools ls s) (st : Stage) (w : PoolWords)
    (owned : Finset ℕ) (granted : ι → PoolId → ℕ → Bool) (hother : ∀ u, u ≠ t → granted u = s.granted u)
    (hgranted : ∀ q x, granted t q x = decide (x ∈ update (ls t).owned p owned q))
    (hrange : ∀ x ∈ owned, 2 ≤ x ∧ x < (pools p).objTotal)
    (hlocked : st.locked = (ls t).stage.locked) (hfits : st.Fits pools (s.memory.set p w))
    (hfits' : ∀ u, u ≠ t → (ls u).stage.Fits pools (s.memory.set p w))
    (hapart : ∀ x ∈ owned, ∀ u, u ≠ t → x ∉ (ls u).owned p)
    (hfree : ∀ x < (pools p).objTotal, bit w.bitmap x = true ↔
      2 ≤ x ∧ x ∉ owned ∧ ∀ u, u ≠ t → x ∉ (ls u).owned p)
    (howed : ∀ q, q ≠ p → st.owed q = (ls t).stage.owed q)
    (hcount : (w.objFree : ℤ) + st.owed p +
        (bits 2 (pools p).objTotal (s.memory.words p).bitmap).card =
      (s.memory.words p).objFree + (ls t).stage.owed p +
        (bits 2 (pools p).objTotal w.bitmap).card) :
    PoolsShared pools (update ls t ⟨(ls t).reg, update (ls t).owned p owned, st⟩)
      { s with memory := s.memory.set p w, granted := granted } := by
  have hself := h.holds t
  have howned : ∀ {P : PoolId → Finset ℕ → Prop}, P p owned → (∀ q, q ≠ p → P q ((ls t).owned q)) →
      ∀ q, P q (update (ls t).owned p owned q) := by
    intro P hp hq q
    by_cases hqp : q = p
    · rw [hqp, update_self]
      exact hp
    · rw [update_of_ne hqp]
      exact hq q hqp
  refine h.move ⟨hself.reg, hgranted, ?_, fun hst ↦ hself.locked (hlocked ▸ hst), hfits⟩
    (fun u hu ↦ ?_) (fun hst u hu ↦ h.unlocked (hlocked ▸ hst) hu) ?_ (fun q ↦ ?_) fun q ↦ ?_
  · exact howned (P := fun q o ↦ ∀ x ∈ o, 2 ≤ x ∧ x < (pools q).objTotal) hrange
      fun q _ ↦ hself.range q
  · have hu' := h.holds u
    refine ⟨hu'.reg, fun q x ↦ ?_, hu'.range, hu'.locked, hfits' u hu⟩
    dsimp only
    rw [hother u hu]
    exact hu'.granted q x
  · exact howned (P := fun q o ↦ ∀ x ∈ o, ∀ u, u ≠ t → x ∉ (ls u).owned q) hapart
      fun q _ x hx u hu ↦ h.apart_of_ne hx hu
  · by_cases hqp : q = p
    · subst hqp
      simp only [set_words, update_self]
      exact hfree
    · simp only [set_words, update_of_ne hqp]
      exact fun x hx ↦ h.free_iff t hx
  · by_cases hqp : q = p
    · subst hqp
      simp only [set_words, update_self]
      exact hcount
    · simp only [set_words, update_of_ne hqp, howed q hqp]

omit [DecidableEq ι] [Fintype ι] in
theorem grantedAfter_eq (b : ℕ → BitVec 32) (i : ℕ) (word : BitVec 32) (granted : ℕ → Bool)
    (y : ℕ) : grantedAfter i (b i) word granted y =
      if bit (update b i word) y = bit b y then granted y else bit b y := by
  rw [grantedAfter, bit_update]
  by_cases hy : y / 32 = i
  · rw [if_pos hy, ← hy]
    show (if y / 32 = y / 32 ∧ bit b y ≠ word.getLsbD (y % 32) then bit b y else granted y) = _
    by_cases hbit : word.getLsbD (y % 32) = bit b y
    · rw [if_pos hbit, if_neg fun h ↦ h.2 hbit.symm]
    · rw [if_neg hbit, if_pos ⟨rfl, fun h ↦ hbit h.symm⟩]
  · rw [if_neg hy, if_pos rfl, if_neg fun h ↦ hy h.1]

omit [Fintype ι] in
theorem record_of_ne (hu : u ≠ t) (a : PoolAccess) (granted : ι → PoolId → ℕ → Bool) :
    record t a granted u = granted u := by
  cases a with
  | storeWord p i seen word => exact update_of_ne hu ..
  | _ => rfl

theorem PoolsShared.takeWord (h : PoolsShared pools ls s) (ht : (ls t).stage = .found p x)
    {word : BitVec 32} (hword : update (s.memory.words p).bitmap (x / 32) word =
      clearBit (s.memory.words p).bitmap x) :
    x ∉ (ls t).owned p ∧ (2 ≤ x ∧ x < (pools p).objTotal) ∧
      PoolsShared pools
        (update ls t ⟨(ls t).reg, update (ls t).owned p (insert x ((ls t).owned p)), .took p⟩)
        { s with
          memory := s.memory.set p
            { s.memory.words p with bitmap := update (s.memory.words p).bitmap (x / 32) word }
          granted := record t
            (.storeWord p (x / 32) ((s.memory.words p).bitmap (x / 32)) word) s.granted } := by
  have hself := h.holds t
  have hfits := hself.fits
  rw [ht] at hfits
  obtain ⟨hpos, hlt, hbit⟩ := hfits
  obtain ⟨hlow, hnot, hother⟩ := (h.free_iff t hlt).1 hbit
  have hlocked : (ls t).stage.locked = true := by
    rw [ht]
    rfl
  refine ⟨hnot, ⟨hlow, hlt⟩, h.store _ _ _ _ (fun u hu ↦ record_of_ne hu ..) ?_ ?_ hlocked.symm ?_
    (fun u hu ↦ Stage.fits_of_unlocked (h.unlocked hlocked hu)) ?_ ?_ ?_ ?_⟩
  · intro q y
    show update s.granted t _ t q y = _
    rw [update_self]
    by_cases hq : q = p
    · subst hq
      rw [update_self, update_self, grantedAfter_eq, hword, bit_clearBit (by decide),
        hself.granted]
      by_cases hy : y = x
      · rw [hy, hbit]
        simp
      · simp [hy]
    · rw [update_of_ne hq, update_of_ne hq]
      exact hself.granted q y
  · intro y hy
    rcases Finset.mem_insert.1 hy with rfl | hy
    · exact ⟨hlow, hlt⟩
    · exact hself.range p y hy
  · show 0 < ((s.memory.set p _).words p).objFree
    rw [set_words, update_self]
    exact hpos
  · intro y hy u hu
    rcases Finset.mem_insert.1 hy with rfl | hy
    · exact hother u hu
    · exact h.apart_of_ne hy hu
  · intro y hy
    rw [hword, bit_clearBit (by decide), Bool.and_eq_true, decide_eq_true_eq, h.free_iff t hy,
      Finset.mem_insert, not_or]
    tauto
  · intro q hq
    rw [ht]
    exact if_neg hq
  · have hmem : x ∈ bits 2 (pools p).objTotal (s.memory.words p).bitmap :=
      mem_bits.2 ⟨⟨hlow, hlt⟩, hbit⟩
    rw [hword, bits_clearBit (by decide), ht]
    have hcard := Finset.card_erase_add_one hmem
    simp only [Stage.owed, if_true]
    omega

theorem PoolsShared.takeFree (h : PoolsShared pools ls s) (ht : (ls t).stage = .took p) :
    PoolsShared pools (update ls t { ls t with stage := .rest true })
      { s with
        memory := s.memory.set p
          { s.memory.words p with objFree := (s.memory.words p).objFree - 1 } } := by
  have hself := h.holds t
  have hpos := hself.fits
  rw [ht] at hpos
  have hpos : 0 < (s.memory.words p).objFree := hpos
  have hlocked : (ls t).stage.locked = true := by
    rw [ht]
    rfl
  have hstore := h.store (.rest true)
    { s.memory.words p with objFree := (s.memory.words p).objFree - 1 } ((ls t).owned p) s.granted
    (fun _ _ ↦ rfl)
    (fun q x ↦ by rw [update_eq_self]; exact hself.granted q x) (hself.range p) hlocked.symm trivial
    (fun u hu ↦ Stage.fits_of_unlocked (h.unlocked hlocked hu))
    (fun x hx u hu ↦ h.apart_of_ne hx hu) (fun x hx ↦ h.free_iff t hx)
    (fun q hq ↦ by rw [ht]; exact (if_neg hq).symm) ?_
  · rwa [update_eq_self] at hstore
  · rw [ht]
    simp only [Stage.owed, if_true]
    omega

theorem Stage.Fits.mono {m : PoolMemory} {w : PoolWords} (h : st.Fits pools m)
    (hfree : (m.words p).objFree ≤ w.objFree)
    (hbit : ∀ x, bit (m.words p).bitmap x = true → bit w.bitmap x = true) :
    st.Fits pools (m.set p w) := by
  have hfree' : ∀ q, (m.words q).objFree ≤ ((m.set p w).words q).objFree := by
    intro q
    by_cases hq : q = p
    · rw [hq, set_words, update_self]
      exact hfree
    · rw [set_words, update_of_ne hq]
  have hbit' : ∀ q x, bit (m.words q).bitmap x = true →
      bit ((m.set p w).words q).bitmap x = true := by
    intro q
    by_cases hq : q = p
    · rw [hq, set_words, update_self]
      exact hbit
    · rw [set_words, update_of_ne hq]
      exact fun _ ↦ id
  cases st with
  | rest b => trivial
  | gave q b => trivial
  | took q => exact lt_of_lt_of_le h (hfree' q)
  | found q x => exact ⟨h.1.trans_le (hfree' q), h.2.1, hbit' q x h.2.2⟩
  | scan q i =>
    obtain ⟨hpos, x, hx, hi⟩ := h
    obtain ⟨hrange, hx⟩ := mem_bits.1 hx
    exact ⟨hpos.trans_le (hfree' q), x, mem_bits.2 ⟨hrange, hbit' q x hx⟩, hi⟩

theorem PoolsShared.giveWord (h : PoolsShared pools ls s) {b : Bool} (ht : (ls t).stage = .rest b)
    (hx : x ∈ (ls t).owned p) (word : BitVec 32)
    (hword : update (s.memory.words p).bitmap (x / 32) word =
      setBit (s.memory.words p).bitmap x) :
    PoolsShared pools
      (update ls t ⟨(ls t).reg, update (ls t).owned p (((ls t).owned p).erase x), .gave p b⟩)
      { s with
        memory := s.memory.set p
          { s.memory.words p with bitmap := update (s.memory.words p).bitmap (x / 32) word }
        granted := record t
          (.storeWord p (x / 32) ((s.memory.words p).bitmap (x / 32)) word) s.granted } := by
  have hself := h.holds t
  obtain ⟨hlow, hlt⟩ := hself.range p x hx
  have hbit : bit (s.memory.words p).bitmap x = false := by
    rw [Bool.eq_false_iff]
    exact fun hbit ↦ ((h.free_iff t hlt).1 hbit).2.1 hx
  have hmore : ∀ y, bit (s.memory.words p).bitmap y = true →
      bit (update (s.memory.words p).bitmap (x / 32) word) y = true := by
    intro y hy
    rw [hword, bit_setBit (by decide), hy, Bool.true_or]
  refine h.store _ _ _ _ (fun u hu ↦ record_of_ne hu ..) ?_ ?_ (by rw [ht]; rfl) trivial
    (fun u hu ↦ (h.holds u).fits.mono le_rfl hmore) ?_ ?_ ?_ ?_
  · intro q y
    show update s.granted t _ t q y = _
    rw [update_self]
    by_cases hq : q = p
    · subst hq
      rw [update_self, update_self, grantedAfter_eq, hword, bit_setBit (by decide), hself.granted]
      by_cases hy : y = x
      · rw [hy, hbit]
        simp
      · simp [hy]
    · rw [update_of_ne hq, update_of_ne hq]
      exact hself.granted q y
  · exact fun y hy ↦ hself.range p y (Finset.mem_of_mem_erase hy)
  · exact fun y hy u hu ↦ h.apart_of_ne (Finset.mem_of_mem_erase hy) hu
  · intro y hy
    rw [hword, bit_setBit (by decide), Bool.or_eq_true, decide_eq_true_eq, h.free_iff t hy,
      Finset.mem_erase, not_and_or, not_not]
    constructor
    · rintro (⟨hlow, hnot, hother⟩ | rfl)
      · exact ⟨hlow, .inr hnot, hother⟩
      · exact ⟨hlow, .inl rfl, fun u hu ↦ h.apart_of_ne hx hu⟩
    · rintro ⟨hlow, rfl | hnot, hother⟩
      · exact .inr rfl
      · exact .inl ⟨hlow, hnot, hother⟩
  · intro q hq
    rw [ht]
    exact if_neg hq
  · have hmem : x ∉ bits 2 (pools p).objTotal (s.memory.words p).bitmap := by
      rw [mem_bits, hbit]
      exact fun h ↦ Bool.false_ne_true h.2
    rw [hword, bits_setBit (by decide) hlow hlt, Finset.card_insert_of_notMem hmem, ht]
    simp only [Stage.owed, if_true]
    omega

theorem PoolsShared.giveFree (h : PoolsShared pools ls s) {b : Bool} (ht : (ls t).stage = .gave p b) :
    PoolsShared pools (update ls t { ls t with stage := .rest b })
      { s with
        memory := s.memory.set p
          { s.memory.words p with objFree := (s.memory.words p).objFree + 1 } } := by
  have hself := h.holds t
  have hstore := h.store (.rest b)
    { s.memory.words p with objFree := (s.memory.words p).objFree + 1 } ((ls t).owned p) s.granted
    (fun _ _ ↦ rfl)
    (fun q x ↦ by rw [update_eq_self]; exact hself.granted q x) (hself.range p)
    (by rw [ht]; rfl) trivial
    (fun u hu ↦ (h.holds u).fits.mono (Nat.le_succ _) fun _ ↦ id)
    (fun x hx u hu ↦ h.apart_of_ne hx hu) (fun x hx ↦ h.free_iff t hx)
    (fun q hq ↦ by rw [ht]; exact (if_neg hq).symm) ?_
  · rwa [update_eq_self] at hstore
  · rw [ht]
    simp only [Stage.owed, if_true]
    omega

end

end Dpa.Kernel
