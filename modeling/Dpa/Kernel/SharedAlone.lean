import Dpa.Kernel.Registration
import Dpa.Kernel.SharedPools

namespace Dpa.Kernel

open Function Library MachineWord Bitmap PoolMemory

section

variable {ι : Type} [DecidableEq ι] {pools : PoolId → DpaObjPool} {bufSize : ℕ} {α : Type}
  {s : SharedPools ι} {t : ι} {m : PoolMemory} {x : α}

theorem run_sharedAccess {p : PoolProgram α} (h : p.run (access pools) s.memory = some (x, m)) :
    ∃ granted, p.run (sharedAccess pools t) s =
      some (x, { s with memory := m, granted := granted }) := by
  induction p generalizing s with
  | ret y =>
    obtain ⟨rfl, rfl⟩ := Prod.mk.inj (Option.some.inj h)
    exact ⟨s.granted, rfl⟩
  | act a next ih =>
    obtain ⟨r, haccess, hrest⟩ := Option.bind_eq_some_iff.1 h
    have hexec : sharedAccess pools t a s =
        some (r.1, { s with memory := r.2, granted := record t a s.granted }) :=
      congrArg (Option.map _) haccess
    obtain ⟨granted, hrun⟩ := ih r.1
      (s := { s with memory := r.2, granted := record t a s.granted }) hrest
    exact ⟨granted, (Program.run_act_of hexec _).trans hrun⟩

/-- Solo a thread undoes nothing that another has done. -/
abbrev Solo (pools : PoolId → DpaObjPool) (t : ι) (p : PoolProgram α) (s : SharedPools ι) : Prop :=
  p.Finds (sharedAccess pools t) (Undisturbed t) s

section

variable {p : PoolId} {i : ℕ} {f : BitVec 32 → PoolProgram α} {g : ℕ → PoolProgram α}

theorem solo_loadWord (h : Solo pools t (f ((s.memory.words p).bitmap i)) s) :
    Solo pools t (loadWord p i >>= f) s := by
  refine ⟨trivial, fun r s' hexec ↦ ?_⟩
  obtain ⟨⟨r', m⟩, haccess, heq⟩ := Option.map_eq_some_iff.1 hexec
  obtain ⟨-, hload⟩ := Option.ite_none_right_eq_some.1 haccess
  obtain ⟨rfl, rfl⟩ := Prod.mk.inj (Option.some.inj hload)
  obtain ⟨rfl, rfl⟩ := Prod.mk.inj heq
  exact h

theorem solo_loadFree (h : Solo pools t (g (s.memory.words p).objFree) s) :
    Solo pools t (loadFree p >>= g) s := by
  refine ⟨trivial, fun r s' hexec ↦ ?_⟩
  obtain ⟨rfl, rfl⟩ := Prod.mk.inj (Option.some.inj hexec)
  exact h

theorem solo_changeWord {op : BitVec 32 → BitVec 32}
    (h : p = .ringPool → (s.interfaces t).difs = [] → FreesOwn i ((s.memory.words p).bitmap i)
      (op ((s.memory.words p).bitmap i)) (s.granted t p)) :
    Solo pools t (changeWord p i op) s :=
  solo_loadWord ⟨⟨rfl, h⟩, fun _ _ _ ↦ trivial⟩

theorem solo_changeFree (op : ℕ → ℕ) (s : SharedPools ι) : Solo pools t (changeFree p op) s :=
  solo_loadFree ⟨rfl, fun _ _ _ ↦ trivial⟩

theorem solo_mallocLoop (pool : DpaObjPool) (fuel i : ℕ) (s : SharedPools ι) :
    Solo pools t (mallocLoop pool p fuel i) s := by
  induction fuel generalizing i s with
  | zero => exact ⟨trivial, fun r ↦ r.elim⟩
  | succ fuel ih =>
    refine solo_loadWord ?_
    by_cases hzero : (s.memory.words p).bitmap i = 0
    · rw [if_pos hzero]
      exact ih (i + 1) s
    · rw [if_neg hzero]
      refine (solo_changeWord fun _ _ ↦ ?_).bind fun _ s₁ _ ↦
        (solo_changeFree _ s₁).bind fun _ s₂ _ ↦ ?_
      · -- an allocation frees nothing
        have hset := getLsbD_lowest hzero
        have hlt := lowest_lt hzero
        refine ⟨fun heq ↦ ?_, fun j hj hclear hset' ↦ ?_⟩
        · have hclear := congrArg (fun w ↦ w.getLsbD (lowest ((s.memory.words p).bitmap i))) heq
          rw [hset, BitVec.getLsbD_and, BitVec.getLsbD_not, getLsbD_one_shiftLeft hlt] at hclear
          simp at hclear
        · rw [BitVec.getLsbD_and, hclear, Bool.false_and] at hset'
          cases hset'
      · dsimp only
        split_ifs
        · exact ih i s₂
        · trivial

theorem solo_malloc (pool : DpaObjPool) (len : ℤ) (s : SharedPools ι) :
    Solo pools t (dpaObjMalloc pool p len) s := by
  rw [dpaObjMalloc]
  split_ifs
  · trivial
  · refine solo_loadFree ?_
    split_ifs
    · trivial
    · exact solo_mallocLoop pool _ 0 s

theorem solo_free (hring : p ≠ .ringPool) (pool : DpaObjPool) (j : ℕ) (s : SharedPools ι) :
    Solo pools t (dpaObjFree pool p j) s := by
  rw [dpaObjFree]
  split_ifs
  · trivial
  · exact (solo_changeWord fun h ↦ absurd h hring).bind fun _ s' _ ↦ solo_changeFree _ s'

theorem solo_newBufsLoop (n m i : ℕ) (slot : ℕ → DpaSlot) (s : SharedPools ι) :
    Solo pools t (newBufsLoop pools bufSize n m i slot) s := by
  induction m generalizing i slot s with
  | zero => trivial
  | succ m ih =>
    rw [newBufsLoop]
    refine (solo_malloc _ _ s).bind fun vaddr s' _ ↦ ?_
    split_ifs
    · exact (Program.finds_forEach (fun j _ s ↦ solo_free (by decide) _ _ s) s').bind
        fun _ _ _ ↦ trivial
    · exact ih (i + 1) _ s'

theorem solo_newRingsLoop (ndesc m i : ℕ) (rx : ℕ → RxRing) (s : SharedPools ι) :
    Solo pools t (newRingsLoop pools bufSize ndesc m i rx) s := by
  induction m generalizing i rx s with
  | zero => trivial
  | succ m ih =>
    rw [newRingsLoop]
    refine (solo_malloc _ _ s).bind fun va s' _ ↦ ?_
    split_ifs
    · trivial
    · refine (solo_newBufsLoop ndesc ndesc 0 _ s').bind fun r s'' _ ↦ ?_
      dsimp only
      split_ifs
      · exact ih (i + 1) _ s''
      · trivial

theorem solo_dpaNewIf {dadp dadp' : DpaAdapter} {dif : DpaIf}
    (hrun : (dpaNewIf pools bufSize dadp).run (access pools) s.memory =
      some ((some dif, dadp'), m)) : Solo pools t (dpaNewIf pools bufSize dadp) s := by
  obtain ⟨granted, hshared⟩ := run_sharedAccess (t := t) hrun
  rw [dpaNewIf] at hshared ⊢
  refine Program.Finds.bind_run ⟨trivial, fun _ _ _ ↦ trivial⟩ hshared fun _ s₁ hrest ↦ ?_
  refine Program.Finds.bind_run (solo_malloc _ _ s₁) hrest fun va s₂ hrest ↦ ?_
  by_cases hva : va = 0
  · rw [if_pos hva]
    exact ⟨trivial, fun _ _ _ ↦ trivial⟩
  by_cases hrefs : dadp.refs > 0
  · rw [if_neg hva, if_pos hrefs]
    exact ⟨trivial, fun _ _ _ ↦ trivial⟩
  rw [if_neg hva, if_neg hrefs] at hrest ⊢
  refine Program.Finds.bind_run (solo_newRingsLoop _ _ _ _ s₂) hrest ?_
  rintro ⟨failed, rx⟩ s₃ hrest
  cases failed with
  | none => exact ⟨trivial, fun _ _ _ ↦ trivial⟩
  | some g =>
    have hnone : (Program.forEach (fun j ↦ freeSlots pools (rx j)) (List.range g).reverse >>=
        fun _ ↦ dpaFreeRings pools dadp.numRxRings rx >>= fun _ ↦ dpaIfFree pools va >>= fun _ ↦
          Program.perform PoolAccess.unlock >>= fun _ ↦
            (pure (none, { dadp with rxRings := rx }) :
              PoolProgram (Option DpaIf × DpaAdapter))).Yields fun r ↦ r.1 = none := by
      refine Program.yields_bind fun _ ↦ Program.yields_bind fun _ ↦ ?_
      exact Program.yields_bind fun _ ↦ Program.yields_bind fun _ ↦ rfl
    cases hnone.of_run hrest

theorem solo_dpaRegIf {r : Registry} {dadp : DpaAdapter} {dif : DpaIf}
    (hnew : (dpaNewIf pools bufSize r.dadp).run (access pools) s.memory =
      some ((some dif, dadp), m)) : Solo pools t (dpaRegIf pools bufSize true r) s := by
  have henter : Solo pools t (regEnter pools bufSize r.enabled r.dadp) s := by
    rw [regEnter]
    split_ifs with hfull
    · trivial
    · exact (solo_dpaNewIf hnew).bind fun _ _ _ ↦ trivial
  rw [dpaRegIf]
  refine henter.bind ?_
  rintro ⟨point, dadp⟩ s' -
  cases point with
  | full => trivial
  | noObjects => trivial
  | joins dif => trivial
  | enables dif => trivial

end

variable {c : Threads.Config ι RegCall (SharedPools ι) Registry PoolAccess PoolAccess.Answer}
  {k : RegCall}

theorem run_sharing_begin {p : PoolProgram α} {f : α → PoolProgram Registry}
    (ht : c.tasks t = none)
    (henter : (sharing pools bufSize).enter t k c.shared = some (p >>= f, c.shared))
    (hp : p.run (access pools) c.shared.memory = some (x, m)) :
    ∃ es granted, Library.run (sharing pools bufSize).next es c =
      some ⟨⟨m, c.shared.interfaces, granted⟩, update c.tasks t (some (k, f x))⟩ := by
  obtain ⟨granted, hrun⟩ := run_sharedAccess (t := t) hp
  obtain ⟨n, hn⟩ := Threads.run_steps (M := sharing pools bufSize)
    (c := ⟨c.shared, update c.tasks t (some (k, p >>= f))⟩) (update_self ..) hrun
  refine ⟨.call t k :: List.replicate n (.step t), granted, ?_⟩
  rw [run_cons (Threads.next_call ht henter), hn, update_idem]

variable (bufSize) in
theorem run_sharing_rest {p : PoolProgram Registry} {r : Registry} (ht : c.tasks t = some (k, p))
    (hp : p.run (access pools) c.shared.memory = some (r, m)) :
    ∃ n granted, Library.run (sharing pools bufSize).next (List.replicate n (.step t)) c =
      some ⟨⟨m, update c.shared.interfaces t r, granted⟩, update c.tasks t none⟩ := by
  obtain ⟨granted, hrun⟩ := run_sharedAccess (t := t) hp
  obtain ⟨n, hn⟩ := Threads.run_rest (M := sharing pools bufSize) ht hrun rfl
  exact ⟨n, granted, hn⟩

variable (bufSize) in
theorem run_sharing_call {p : PoolProgram Registry} {r : Registry} (ht : c.tasks t = none)
    (henter : (sharing pools bufSize).enter t k c.shared = some (p, c.shared))
    (hp : p.run (access pools) c.shared.memory = some (r, m)) :
    ∃ n granted,
      Library.run (sharing pools bufSize).next (.call t k :: List.replicate n (.step t)) c =
        some ⟨⟨m, update c.shared.interfaces t r, granted⟩, c.tasks⟩ := by
  let c₁ : Threads.Config ι RegCall (SharedPools ι) Registry PoolAccess PoolAccess.Answer :=
    ⟨c.shared, update c.tasks t (some (k, p))⟩
  have ht₁ : c₁.tasks t = some (k, p) := update_self ..
  obtain ⟨granted, hrun⟩ := run_sharedAccess (t := t) hp
  obtain ⟨n, hn⟩ := Threads.run_rest (M := sharing pools bufSize) ht₁ hrun rfl
  refine ⟨n, granted, ?_⟩
  rw [run_cons (Threads.next_call ht henter)]
  refine hn.trans ?_
  rw [update_idem, ← ht, update_eq_self]

theorem run_sharing_register {dadp : DpaAdapter} {dif : DpaIf} (ht : c.tasks t = none)
    (hopen : (c.shared.interfaces t).dadp.refs ≠ (c.shared.interfaces t).dadp.numRxRings)
    (hnew : (dpaNewIf pools bufSize (c.shared.interfaces t).dadp).run (access pools)
      c.shared.memory = some ((some dif, dadp), m)) :
    ∃ es granted, Throughout (sharing pools bufSize).next
        (Threads.Meets (fun _ _ _ ↦ True) Undisturbed) es c ∧
      Library.run (sharing pools bufSize).next es c = some
        ⟨⟨m, update c.shared.interfaces t ⟨dadp, true, (c.shared.interfaces t).difs ++ [dif]⟩,
          granted⟩, c.tasks⟩ := by
  obtain ⟨n, granted, hrun⟩ := run_sharing_call bufSize (k := .register true) ht rfl
    (run_dpaRegIf_some hopen hnew)
  refine ⟨_, granted, ?_, hrun⟩
  exact .cons trivial (Threads.next_call ht rfl)
    (Threads.throughout_steps (update_self ..) (solo_dpaRegIf hnew) n)

variable {F : PoolId → Finset ℕ} {n : ℕ}

theorem run_dpaNewIf_one (hp : SoundPools pools bufSize) (hm : Represented pools m F)
    (hlock : m.locked = false) (hif : (F .ifPool).Nonempty)
    (hlen : ifLen 1 ≤ (pools .ifPool).objSize) (hrlen : ringLen n ≤ (pools .ringPool).objSize)
    (hring : (F .ringPool).Nonempty) (hbuf : n ≤ (F .bufPool).card) :
    ∃ x y rx, Filled pools bufSize n (rx 0) ∧ IsObject (pools .ringPool) (rx 0).ringVa y ∧
      IsObject (pools .ifPool) ((pools .ifPool).addrTbl x).vaddr x ∧
      (FreeObjs F fun p ↦ only .ifPool [x] p ++ ringGrant pools (rx 0) p) ∧
      (dpaNewIf pools bufSize (dpaAttach 1 n).dadp).run (access pools) m =
        some ((some (newIf pools ((pools .ifPool).addrTbl x).vaddr ⟨1, 1, n, rx⟩), ⟨1, 1, n, rx⟩),
          m.takeAll fun p ↦ only .ifPool [x] p ++ ringGrant pools (rx 0) p) := by
  have hen : Enough pools F n 1 := by
    refine .inr ⟨hrlen, Finset.card_pos.2 hring, ?_⟩
    rwa [Nat.one_mul]
  have hlen' : ifLen (dpaAttach 1 n).dadp.numRxRings ≤ (pools .ifPool).objSize := hlen
  obtain ⟨x, rx, hrun, hfree, hfilled, -⟩ := run_dpaNewIf_first hp hm hlock hif hlen'
    (lt_irrefl 0) hen
  have hone : ringGrants pools rx (List.range 1) = ringGrant pools (rx 0) := by
    funext p
    exact List.append_nil _
  have hxr := (hm .ifPool).range x ((hfree .ifPool).2 x (by simp))
  obtain ⟨y, slot, hy, hslot⟩ := hfilled 0 Nat.one_pos
  change FreeObjs F fun p ↦ only .ifPool [x] p ++ ringGrants pools rx (List.range 1) p at hfree
  change _ = some (_, m.takeAll fun p ↦
    only .ifPool [x] p ++ ringGrants pools rx (List.range 1) p) at hrun
  rw [hone] at hfree hrun
  exact ⟨x, y, rx, ⟨y, slot, hy, hslot⟩, hy, ⟨hxr.1, hxr.2, rfl⟩, hfree, hrun⟩

end

end Dpa.Kernel
