import Dpa.Kernel.SharedPools

namespace Dpa.Kernel

open Function Library MachineWord Bitmap PoolMemory

namespace Share

variable (l : Share) (G H : PoolId → List ℕ)

def goto (st : Stage) : Share := { l with stage := st }

def gain : Share := { l with owned := fun p ↦ l.owned p ∪ (G p).toFinset }

def lose : Share := { l with owned := fun p ↦ l.owned p \ (G p).toFinset }

def spare (pools : PoolId → DpaObjPool) (p : PoolId) : Finset ℕ :=
  Finset.Ico 2 (pools p).objTotal \ l.owned p

/-- Objects may be released that are owned, and rings in a registration that finds its interface
unused. -/
def May (p : PoolId) (xs : List ℕ) : Prop :=
  p = .ringPool ∧ l.reg.difs = [] ∨ xs.Nodup ∧ ∀ x ∈ xs, x ∈ l.owned p

@[simp] theorem gain_nil : (l.gain fun _ ↦ []) = l := by
  simp [gain]

@[simp] theorem lose_nil : (l.lose fun _ ↦ []) = l := by
  simp [lose]

theorem gain_gain : (l.gain G).gain H = l.gain fun p ↦ G p ++ H p := by
  simp only [gain, List.toFinset_append, Finset.union_assoc]

theorem lose_lose : (l.lose G).lose H = l.lose fun p ↦ G p ++ H p := by
  simp only [lose, List.toFinset_append, sdiff_sdiff, Finset.sup_eq_union]

variable {l G H} {pools : PoolId → DpaObjPool} {p : PoolId} {x : ℕ} {xs ys : List ℕ}

theorem spare_gain (pools : PoolId → DpaObjPool) :
    (l.gain G).spare pools = fun p ↦ l.spare pools p \ (G p).toFinset := by
  funext p
  simp only [spare, gain, sdiff_sdiff, Finset.sup_eq_union]

theorem lose_perm (h : ∀ p, (G p).Perm (H p)) : l.lose G = l.lose H := by
  have hset : ∀ p, (G p).toFinset = (H p).toFinset := fun p ↦ List.toFinset_eq_of_perm _ _ (h p)
  simp only [lose, hset]

theorem mem_spare : x ∈ l.spare pools p ↔ (2 ≤ x ∧ x < (pools p).objTotal) ∧ x ∉ l.owned p := by
  rw [spare, Finset.mem_sdiff, Finset.mem_Ico]

theorem lose_gain (hG : FreeObjs (l.spare pools) G) (h : ∀ p, (H p).Perm (G p)) :
    (l.gain G).lose H = l := by
  have howned : (fun p ↦ (l.owned p ∪ (G p).toFinset) \ (H p).toFinset) = l.owned := by
    funext p
    ext x
    rw [Finset.mem_sdiff, Finset.mem_union, List.mem_toFinset, List.mem_toFinset, (h p).mem_iff]
    constructor
    · rintro ⟨hx | hx, hnot⟩
      · exact hx
      · exact absurd hx hnot
    · exact fun hx ↦ ⟨.inl hx, fun hx' ↦ (mem_spare.1 ((hG p).2 x hx')).2 hx⟩
  rw [lose, gain]
  exact congrArg (fun owned ↦ { l with owned := owned }) howned

theorem lose_gain_of_empty (h : ∀ p, l.owned p = ∅) (hsub : ∀ p, G p ⊆ H p) :
    (l.gain G).lose H = l := by
  have howned : (fun p ↦ (l.owned p ∪ (G p).toFinset) \ (H p).toFinset) = l.owned := by
    funext p
    rw [h p, Finset.empty_union, Finset.sdiff_eq_empty_iff_subset]
    intro x hx
    exact List.mem_toFinset.2 (hsub p (List.mem_toFinset.1 hx))
  rw [lose, gain]
  exact congrArg (fun owned ↦ { l with owned := owned }) howned

theorem freeObjs_gain (hG : FreeObjs (l.spare pools) G) : FreeObjs (l.gain G).owned G :=
  fun p ↦ ⟨(hG p).1, fun _ hx ↦ Finset.mem_union_right _ (List.mem_toFinset.2 hx)⟩

theorem valid_gain (hl : ∀ x ∈ l.owned p, 2 ≤ x ∧ x < (pools p).objTotal)
    (hG : FreeObjs (l.spare pools) G) :
    ∀ x ∈ (l.gain G).owned p, 2 ≤ x ∧ x < (pools p).objTotal := by
  intro x hx
  rcases Finset.mem_union.1 hx with hx | hx
  · exact hl x hx
  · exact (mem_spare.1 ((hG p).2 x (List.mem_toFinset.1 hx))).1

theorem gain_only (p : PoolId) (x : ℕ) :
    l.gain (only p [x]) = { l with owned := update l.owned p (insert x (l.owned p)) } := by
  rw [gain]
  congr 1
  funext q
  by_cases hq : q = p
  · subst hq
    rw [only_self, update_self, List.toFinset_cons, List.toFinset_nil, Finset.insert_empty,
      Finset.union_singleton]
  · rw [only_of_ne hq, update_of_ne hq, List.toFinset_nil, Finset.union_empty]

theorem lose_only (p : PoolId) (x : ℕ) :
    l.lose (only p [x]) = { l with owned := update l.owned p ((l.owned p).erase x) } := by
  rw [lose]
  congr 1
  funext q
  by_cases hq : q = p
  · subst hq
    rw [only_self, update_self, List.toFinset_cons, List.toFinset_nil, Finset.insert_empty,
      Finset.sdiff_singleton_eq_erase]
  · rw [only_of_ne hq, update_of_ne hq, List.toFinset_nil, Finset.sdiff_empty]

theorem May.left (h : l.May p (xs ++ ys)) : l.May p xs :=
  h.imp_right fun h ↦ ⟨(List.nodup_append.1 h.1).1, fun x hx ↦ h.2 x (List.mem_append_left _ hx)⟩

theorem May.right (h : l.May p (xs ++ ys)) : (l.lose (only p xs)).May p ys := by
  refine h.imp_right fun h ↦ ?_
  obtain ⟨-, hys, hdisj⟩ := List.nodup_append.1 h.1
  refine ⟨hys, fun y hy ↦ ?_⟩
  rw [lose]
  dsimp only
  rw [only_self, Finset.mem_sdiff, List.mem_toFinset]
  exact ⟨h.2 y (List.mem_append_right _ hy), fun hx ↦ hdisj y hx y hy rfl⟩

end Share

variable {ι α β : Type} [DecidableEq ι] [Fintype ι] {pools : PoolId → DpaObjPool} {ls : ι → Share}
  {l : Share} {s : SharedPools ι} {t : ι} {p : PoolId} {i x : ℕ} {b : Bool}

abbrev Shares (pools : PoolId → DpaObjPool) (t : ι) (Q : α → Share → Prop) (p : PoolProgram α)
    (l : Share) : Prop :=
  p.Keeps (sharedAccess pools) Undisturbed (PoolsShared pools) t Q l

theorem shares_lock (hl : l.stage = .rest false) :
    Shares pools t (fun _ l' ↦ l' = l.goto (.rest true)) (.perform PoolAccess.lock) l := by
  rintro ls s r s' rfl hinv - hexec
  refine ⟨_, ?_, rfl⟩
  cases hlocked : s.memory.locked with
  | true => simp [sharedAccess, access, hlocked] at hexec
  | false =>
    simp only [sharedAccess, access, hlocked, Bool.false_eq_true, if_false, Option.map_some,
      Option.some.injEq, Prod.mk.injEq] at hexec
    obtain ⟨-, rfl⟩ := hexec
    exact hinv.lock hl hlocked

theorem shares_unlock (hl : l.stage = .rest true) :
    Shares pools t (fun _ l' ↦ l' = l.goto (.rest false)) (.perform PoolAccess.unlock) l := by
  rintro ls s r s' rfl hinv - hexec
  obtain ⟨-, rfl⟩ := Prod.mk.inj (Option.some.inj hexec)
  exact ⟨_, hinv.unlock hl, rfl⟩

theorem PoolsShared.same (h : PoolsShared pools ls s) (t : ι) :
    PoolsShared pools (update ls t (ls t)) s := by
  rwa [update_eq_self]

theorem shares_loadWord {f : BitVec 32 → PoolProgram α} {Q : α → Share → Prop}
    (h : ∀ (ls : ι → Share) s, ls t = l → PoolsShared pools ls s →
      ∃ l', PoolsShared pools (update ls t l') s ∧
        Shares pools t Q (f ((s.memory.words p).bitmap i)) l') :
    Shares pools t Q (loadWord p i >>= f) l := by
  rintro ls s r s' hl hinv - hexec
  obtain ⟨⟨r', m⟩, haccess, heq⟩ := Option.map_eq_some_iff.1 hexec
  obtain ⟨-, hload⟩ := Option.ite_none_right_eq_some.1 haccess
  obtain ⟨rfl, rfl⟩ := Prod.mk.inj (Option.some.inj hload)
  obtain ⟨rfl, rfl⟩ := Prod.mk.inj heq
  exact h ls s hl hinv

theorem shares_loadFree {f : ℕ → PoolProgram α} {Q : α → Share → Prop}
    (h : ∀ (ls : ι → Share) s, ls t = l → PoolsShared pools ls s →
      ∃ l', PoolsShared pools (update ls t l') s ∧
        Shares pools t Q (f (s.memory.words p).objFree) l') :
    Shares pools t Q (loadFree p >>= f) l := by
  rintro ls s r s' hl hinv - hexec
  obtain ⟨rfl, rfl⟩ := Prod.mk.inj (Option.some.inj hexec)
  exact h ls s hl hinv

theorem shares_changeWord {op : BitVec 32 → BitVec 32} {Q : Unit → Share → Prop}
    (h : ∀ (ls : ι → Share) s, ls t = l → PoolsShared pools ls s →
      (p = .ringPool → (s.interfaces t).difs = [] →
        FreesOwn i ((s.memory.words p).bitmap i) (op ((s.memory.words p).bitmap i))
          (s.granted t p)) →
      ∃ l', PoolsShared pools (update ls t l')
        { s with
          memory := s.memory.set p
            { s.memory.words p with
              bitmap := update (s.memory.words p).bitmap i (op ((s.memory.words p).bitmap i)) }
          granted := record t (.storeWord p i ((s.memory.words p).bitmap i)
            (op ((s.memory.words p).bitmap i))) s.granted } ∧ Q () l') :
    Shares pools t Q (changeWord p i op) l := by
  refine shares_loadWord fun ls s hl hinv ↦ ⟨l, hl ▸ hinv.same t, ?_⟩
  rintro ls' s' r s'' hl' hinv' ⟨hseen, hown⟩ hexec
  obtain ⟨⟨r', m⟩, haccess, heq⟩ := Option.map_eq_some_iff.1 hexec
  obtain ⟨-, hstore⟩ := Option.ite_none_right_eq_some.1 haccess
  obtain ⟨-, rfl⟩ := Prod.mk.inj (Option.some.inj hstore)
  obtain ⟨-, rfl⟩ := Prod.mk.inj heq
  rw [← hseen] at hown ⊢
  exact h ls' s' hl' hinv' hown

theorem shares_changeFree {op : ℕ → ℕ} {Q : Unit → Share → Prop}
    (h : ∀ (ls : ι → Share) s, ls t = l → PoolsShared pools ls s →
      ∃ l', PoolsShared pools (update ls t l')
        { s with
          memory := s.memory.set p
            { s.memory.words p with objFree := op (s.memory.words p).objFree } } ∧ Q () l') :
    Shares pools t Q (changeFree p op) l := by
  refine shares_loadFree fun ls s hl hinv ↦ ⟨l, hl ▸ hinv.same t, ?_⟩
  rintro ls' s' r s'' hl' hinv' hseen hexec
  obtain ⟨-, rfl⟩ := Prod.mk.inj (Option.some.inj hexec)
  have hseen : (s'.memory.words p).objFree = (s.memory.words p).objFree := hseen
  rw [← hseen]
  exact h ls' s' hl' hinv'

/-- The scan goes on while there is an object that it has not come to. -/
theorem shares_mallocLoop (hp : (pools p).Sound) (fuel : ℕ) (hl : l.stage = .scan p i) :
    Shares pools t (fun vaddr l' ↦ ∃ x, IsObject (pools p) vaddr x ∧ x ∉ l.owned p ∧
      l' = (l.goto (.rest true)).gain (only p [x])) (mallocLoop (pools p) p fuel i) l := by
  induction fuel generalizing i l with
  | zero =>
    rintro ls s r s' - - - hexec
    cases hexec
  | succ fuel ih =>
    refine shares_loadWord ?_
    rintro ls s rfl hinv
    have hfits := (hinv.holds t).fits
    rw [hl] at hfits
    obtain ⟨hpos, y, hy, hi⟩ := hfits
    obtain ⟨⟨-, hyt⟩, hybit⟩ := mem_bits.1 hy
    have hgoto : ∀ st : Stage, st.locked = true → st.owed = (fun _ ↦ 0) →
        st.Fits pools s.memory → PoolsShared pools (update ls t ((ls t).goto st)) s :=
      fun st hst howed ↦ hinv.goto st (by rw [hst, hl]; rfl) (by rw [howed, hl]; rfl)
    by_cases hzero : (s.memory.words p).bitmap i = 0
    · rw [if_pos hzero]
      refine ⟨_, hgoto (.scan p (i + 1)) rfl rfl ⟨hpos, y, hy, ?_⟩,
        ih (l := (ls t).goto (.scan p (i + 1))) rfl⟩
      refine Nat.lt_of_le_of_ne hi ?_
      rintro rfl
      exact word_ne_zero hybit hzero
    · rw [if_neg hzero]
      have hlow := lowest_lt hzero
      have hx : i * 32 + lowest ((s.memory.words p).bitmap i) ≤ y := by
        rcases Nat.lt_or_ge i (y / 32) with hlt | hge
        · omega
        · obtain rfl : i = y / 32 := le_antisymm hi hge
          exact lowest_le hybit
      have hbit := (bit_word (b := (s.memory.words p).bitmap) hlow i).trans (getLsbD_lowest hzero)
      have hdiv : (i * 32 + lowest ((s.memory.words p).bitmap i)) / 32 = i := by omega
      have hmod : (i * 32 + lowest ((s.memory.words p).bitmap i)) % 32 =
          lowest ((s.memory.words p).bitmap i) := by omega
      generalize hxdef : i * 32 + lowest ((s.memory.words p).bitmap i) = x at *
      refine ⟨_, hgoto (.found p x) rfl rfl ⟨hpos, hx.trans_lt hyt, hbit⟩, ?_⟩
      refine Program.Keeps.bind (P := fun _ l' ↦ x ∉ (ls t).owned p ∧
        (2 ≤ x ∧ x < (pools p).objTotal) ∧
        l' = ((ls t).goto (.took p)).gain (only p [x])) ?_ ?_
      · refine shares_changeWord fun ls' s' hl' hinv' _ ↦ ?_
        have hstage : (ls' t).stage = .found p x := by
          rw [hl']
          rfl
        have hword : update (s'.memory.words p).bitmap (x / 32)
            ((s'.memory.words p).bitmap (x / 32) &&&
              ~~~(1#32 <<< lowest ((s.memory.words p).bitmap i))) =
            clearBit (s'.memory.words p).bitmap x := by
          rw [clearBit, hmod]
        obtain ⟨hnot, hrange, htake⟩ := hinv'.takeWord hstage hword
        rw [hdiv] at htake
        rw [hl'] at htake hnot
        exact ⟨_, htake, hnot, hrange, (Share.gain_only (l := (ls t).goto (.took p)) p x).symm⟩
      · rintro _ l' ⟨hnot, hrange, rfl⟩
        refine Program.Keeps.bind (P := fun _ l' ↦
          l' = ((ls t).goto (.rest true)).gain (only p [x])) ?_ ?_
        · refine shares_changeFree fun ls' s' hl' hinv' ↦ ?_
          have hstage : (ls' t).stage = .took p := by
            rw [hl']
            rfl
          have htake := hinv'.takeFree hstage
          rw [hl'] at htake
          exact ⟨_, htake, rfl⟩
        · rintro _ l' rfl
          dsimp only
          rw [hxdef, if_neg (hp.vaddr_ne hrange.2)]
          exact ⟨x, ⟨hrange.1, hrange.2, rfl⟩, hnot, rfl⟩

theorem shares_malloc (hp : (pools p).Sound) (len : ℤ) (hl : l.stage = .rest true) :
    Shares pools t (fun vaddr l' ↦ vaddr = 0 ∧ l' = l ∨ ∃ x, IsObject (pools p) vaddr x ∧
      FreeObjs (l.spare pools) (only p [x]) ∧ l' = l.gain (only p [x]))
      (dpaObjMalloc (pools p) p len) l := by
  have hrest : l.goto (.rest true) = l := by
    rw [← hl]
    rfl
  rw [dpaObjMalloc]
  by_cases hlen : u32 len > (pools p).objSize
  · rw [if_pos hlen]
    exact .inl ⟨rfl, rfl⟩
  · rw [if_neg hlen]
    refine shares_loadFree ?_
    rintro ls s rfl hinv
    by_cases hzero : (s.memory.words p).objFree = 0
    · refine ⟨ls t, hinv.same t, ?_⟩
      rw [if_pos hzero]
      exact .inl ⟨rfl, rfl⟩
    · have hpos : 0 < (s.memory.words p).objFree := Nat.pos_of_ne_zero hzero
      have hlocked : (ls t).stage.locked = true := by
        rw [hl]
        rfl
      have howed : ∀ u, 0 ≤ (ls u).stage.owed p := by
        intro u
        by_cases hu : u = t
        · rw [hu, hl]
          exact le_rfl
        · exact Stage.owed_nonneg (hinv.unlocked hlocked hu) p
      have hsum := Finset.sum_nonneg fun u (_ : u ∈ Finset.univ) ↦ howed u
      have hcount := hinv.count p
      obtain ⟨y, hy⟩ : (bits 2 (pools p).objTotal (s.memory.words p).bitmap).Nonempty := by
        rw [← Finset.card_pos]
        omega
      refine ⟨_, hinv.goto (.scan p 0) (by rw [hl]; rfl) (by rw [hl]; rfl)
        ⟨hpos, y, hy, Nat.zero_le _⟩, ?_⟩
      rw [if_neg hzero]
      refine (shares_mallocLoop hp _ (l := (ls t).goto (.scan p 0)) rfl).mono ?_
      rintro vaddr l' ⟨x, hx, hnot, rfl⟩
      refine .inr ⟨x, hx, .only (Share.mem_spare.2 ⟨⟨hx.1, hx.2.1⟩, hnot⟩), ?_⟩
      show ((ls t).goto (.rest true)).gain _ = _
      rw [hrest]

theorem shares_free (hl : l.stage = .rest b) (hx : x < (pools p).objTotal) (hmay : l.May p [x]) :
    Shares pools t (fun _ l' ↦ l' = l.lose (only p [x])) (dpaObjFree (pools p) p x) l := by
  rw [dpaObjFree, if_neg (not_le.2 hx)]
  refine Program.Keeps.bind (P := fun _ l' ↦ l' = (l.lose (only p [x])).goto (.gave p b)) ?_ ?_
  · refine shares_changeWord fun ls s hl' hinv hown ↦ ?_
    subst hl'
    have hmem : x ∈ (ls t).owned p := by
      rcases hmay with ⟨hring, hdifs⟩ | ⟨-, hall⟩
      · rw [(hinv.holds t).reg] at hown
        obtain ⟨hne, hfrees⟩ := hown hring hdifs
        have hlt : x % 32 < 32 := Nat.mod_lt x (by decide)
        have hclear : ((s.memory.words p).bitmap (x / 32)).getLsbD (x % 32) = false := by
          rw [Bool.eq_false_iff]
          intro hset
          apply hne
          apply BitVec.eq_of_getLsbD_eq
          intro j hj
          rw [BitVec.getLsbD_or, getLsbD_one_shiftLeft hj]
          by_cases hjx : j = x % 32
          · rw [hjx, hset, Bool.true_or]
          · rw [decide_eq_false hjx, Bool.or_false]
        have hgranted := hfrees (x % 32) hlt hclear (by
          rw [BitVec.getLsbD_or, getLsbD_one_shiftLeft hlt, decide_eq_true rfl, Bool.or_true])
        rw [Nat.div_add_mod', (hinv.holds t).granted] at hgranted
        exact of_decide_eq_true hgranted
      · exact hall x List.mem_cons_self
    have hgive := hinv.giveWord (p := p) hl hmem ((s.memory.words p).bitmap (x / 32) |||
      1#32 <<< (x % 32)) rfl
    refine ⟨_, hgive, ?_⟩
    rw [Share.lose_only]
    rfl
  · rintro _ l' rfl
    refine shares_changeFree fun ls s hl' hinv ↦ ?_
    have hstage : (ls t).stage = .gave p b := by
      rw [hl']
      rfl
    have hgive := hinv.giveFree hstage
    refine ⟨_, hgive, ?_⟩
    rw [hl', ← hl]
    rfl

theorem shares_releases {f : β → PoolProgram Unit} {g : β → List ℕ} {xs : List β}
    (hf : ∀ x ∈ xs, ∀ l : Share, l.stage = .rest b → l.May p (g x) →
      Shares pools t (fun _ l' ↦ l' = l.lose (only p (g x))) (f x) l)
    (hl : l.stage = .rest b) (hmay : l.May p (xs.flatMap g)) :
    Shares pools t (fun _ l' ↦ l' = l.lose (only p (xs.flatMap g))) (Program.forEach f xs) l := by
  induction xs generalizing l with
  | nil =>
    show l = _
    rw [List.flatMap_nil, only_nil, Share.lose_nil]
  | cons x xs ih =>
    rw [List.flatMap_cons] at hmay
    refine Program.Keeps.bind (hf x List.mem_cons_self l hl hmay.left) ?_
    rintro _ l' rfl
    have hrest := ih (l := l.lose (only p (g x))) (fun y hy ↦ hf y (List.mem_cons_of_mem x hy)) hl
      hmay.right
    refine hrest.mono ?_
    rintro _ l' rfl
    rw [Share.lose_lose, only_append, List.flatMap_cons]

end Dpa.Kernel
