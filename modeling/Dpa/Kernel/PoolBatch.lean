import Dpa.Kernel.PoolSpec

namespace Dpa.Kernel

open Function Library MachineWord Bitmap

namespace PoolWords

variable {w : PoolWords} {x y : ℕ} {xs ys : List ℕ}

def takeAll (w : PoolWords) (xs : List ℕ) : PoolWords := xs.foldl take w

def putAll (w : PoolWords) (xs : List ℕ) : PoolWords := xs.foldl put w

theorem ext_bit {w w' : PoolWords} (hfree : w.objFree = w'.objFree)
    (hbit : ∀ x, bit w.bitmap x = bit w'.bitmap x) : w = w' := by
  obtain ⟨f, b⟩ := w
  obtain ⟨f', b'⟩ := w'
  obtain rfl : f = f' := hfree
  obtain rfl : b = b' := Bitmap.ext_bit (by decide) hbit
  rfl

theorem put_comm (w : PoolWords) (x y : ℕ) : (w.put x).put y = (w.put y).put x := by
  refine ext_bit rfl fun z ↦ ?_
  simp only [put, bit_setBit (w := 32) (by decide)]
  rw [Bool.or_assoc, Bool.or_comm (decide (z = x)), ← Bool.or_assoc]

instance : RightCommutative put := ⟨put_comm⟩

theorem putAll_perm (w : PoolWords) (h : xs.Perm ys) : w.putAll xs = w.putAll ys := h.foldl_eq w

theorem putAll_append (w : PoolWords) (xs ys : List ℕ) :
    w.putAll (xs ++ ys) = (w.putAll xs).putAll ys := List.foldl_append

theorem takeAll_append (w : PoolWords) (xs ys : List ℕ) :
    w.takeAll (xs ++ ys) = (w.takeAll xs).takeAll ys := List.foldl_append

theorem bit_takeAll (w : PoolWords) (xs : List ℕ) (y : ℕ) :
    bit (w.takeAll xs).bitmap y = (bit w.bitmap y && decide (y ∉ xs)) := by
  induction xs generalizing w with
  | nil => simp [takeAll]
  | cons x xs ih =>
    change bit ((w.take x).takeAll xs).bitmap y = _
    rw [ih, take, bit_clearBit (by decide), Bool.and_assoc]
    simp only [List.mem_cons, not_or, Bool.decide_and]

theorem objFree_takeAll (w : PoolWords) (xs : List ℕ) :
    (w.takeAll xs).objFree = w.objFree - xs.length := by
  induction xs generalizing w with
  | nil => rfl
  | cons x xs ih =>
    change ((w.take x).takeAll xs).objFree = _
    rw [ih, List.length_cons]
    exact (by omega : w.objFree - 1 - xs.length = w.objFree - (xs.length + 1))

theorem takeAll_perm (w : PoolWords) (h : xs.Perm ys) : w.takeAll xs = w.takeAll ys := by
  refine ext_bit ?_ fun z ↦ ?_
  · rw [objFree_takeAll, objFree_takeAll, h.length_eq]
  · rw [bit_takeAll, bit_takeAll]
    simp only [h.mem_iff]

theorem bit_putAll (w : PoolWords) (xs : List ℕ) (y : ℕ) :
    bit (w.putAll xs).bitmap y = (bit w.bitmap y || decide (y ∈ xs)) := by
  induction xs generalizing w with
  | nil => simp [putAll]
  | cons x xs ih =>
    change bit ((w.put x).putAll xs).bitmap y = _
    rw [ih, put, bit_setBit (by decide), Bool.or_assoc]
    simp only [List.mem_cons, Bool.decide_or]

theorem objFree_putAll (w : PoolWords) (xs : List ℕ) :
    (w.putAll xs).objFree = w.objFree + xs.length := by
  induction xs generalizing w with
  | nil => rfl
  | cons x xs ih =>
    change ((w.put x).putAll xs).objFree = _
    rw [ih, List.length_cons]
    exact (by omega : w.objFree + 1 + xs.length = w.objFree + (xs.length + 1))

/-- What has been taken and is put back, in any order, leaves the words as they were. -/
theorem putAll_takeAll (hbit : ∀ x ∈ xs, bit w.bitmap x = true)
    (hlen : xs.length ≤ w.objFree) (hperm : ys.Perm xs) : (w.takeAll xs).putAll ys = w := by
  refine ext_bit ?_ fun z ↦ ?_
  · rw [objFree_putAll, objFree_takeAll, hperm.length_eq]
    omega
  · rw [bit_putAll, bit_takeAll]
    by_cases hz : z ∈ xs
    · simp [hz, hperm.mem_iff, hbit z hz]
    · simp [hz, hperm.mem_iff]

theorem perm_of_putAll_takeAll (hnd : xs.Nodup) (hbit : ∀ x ∈ xs, bit w.bitmap x = true)
    (hlen : xs.length ≤ w.objFree) (h : (w.takeAll xs).putAll ys = w) : ys.Perm xs := by
  have hsub : xs ⊆ ys := by
    intro x hx
    have hbit' := congrArg (fun w ↦ bit w.bitmap x) h
    simp only [bit_putAll, bit_takeAll, hbit x hx] at hbit'
    simpa [hx] using hbit'
  have hcount := congrArg objFree h
  rw [objFree_putAll, objFree_takeAll] at hcount
  exact ((hnd.subperm hsub).perm_of_length_le (by omega)).symm

end PoolWords

namespace PoolMemory

variable {s : PoolMemory} {xs ys : PoolId → List ℕ} {p : PoolId}

def takeAll (s : PoolMemory) (xs : PoolId → List ℕ) : PoolMemory :=
  { s with words := fun p ↦ (s.words p).takeAll (xs p) }

def putAll (s : PoolMemory) (xs : PoolId → List ℕ) : PoolMemory :=
  { s with words := fun p ↦ (s.words p).putAll (xs p) }

def only (p : PoolId) (xs : List ℕ) : PoolId → List ℕ := update (fun _ ↦ []) p xs

theorem takeAll_takeAll (s : PoolMemory) (xs ys : PoolId → List ℕ) :
    (s.takeAll xs).takeAll ys = s.takeAll fun p ↦ xs p ++ ys p := by
  simp only [takeAll, PoolWords.takeAll_append]

theorem putAll_putAll (s : PoolMemory) (xs ys : PoolId → List ℕ) :
    (s.putAll xs).putAll ys = s.putAll fun p ↦ xs p ++ ys p := by
  simp only [putAll, PoolWords.putAll_append]

theorem takeAll_nil (s : PoolMemory) : (s.takeAll fun _ ↦ []) = s := rfl

theorem putAll_nil (s : PoolMemory) : (s.putAll fun _ ↦ []) = s := rfl

theorem putAll_perm (s : PoolMemory) (h : ∀ p, (xs p).Perm (ys p)) : s.putAll xs = s.putAll ys := by
  rw [putAll, putAll]
  congr 1
  funext p
  exact PoolWords.putAll_perm _ (h p)

theorem takeAll_perm (s : PoolMemory) (h : ∀ p, (xs p).Perm (ys p)) :
    s.takeAll xs = s.takeAll ys := by
  rw [takeAll, takeAll]
  congr 1
  funext p
  exact PoolWords.takeAll_perm _ (h p)

theorem set_takeAll (s : PoolMemory) (p : PoolId) (xs : List ℕ) :
    s.set p ((s.words p).takeAll xs) = s.takeAll (only p xs) := by
  rw [set, takeAll]
  congr 1
  funext q
  by_cases hq : q = p
  · subst hq
    rw [only, update_self, update_self]
  · rw [only, update_of_ne hq, update_of_ne hq]
    rfl

theorem set_putAll (s : PoolMemory) (p : PoolId) (xs : List ℕ) :
    s.set p ((s.words p).putAll xs) = s.putAll (only p xs) := by
  rw [set, putAll]
  congr 1
  funext q
  by_cases hq : q = p
  · subst hq
    rw [only, update_self, update_self]
  · rw [only, update_of_ne hq, update_of_ne hq]
    rfl

@[simp] theorem only_self (p : PoolId) (xs : List ℕ) : only p xs p = xs := update_self ..

theorem only_of_ne {p q : PoolId} (h : q ≠ p) (xs : List ℕ) : only p xs q = [] := update_of_ne h ..

theorem words_putAll_of_ne {q : PoolId} (h : q ≠ p) (zs : List ℕ) :
    (s.putAll (only p zs)).words q = s.words q := by
  show (s.words q).putAll (only p zs q) = _
  rw [only_of_ne h]
  rfl

theorem only_nil (p : PoolId) : only p [] = fun _ ↦ [] := update_eq_self p _

theorem only_append (p : PoolId) (xs ys : List ℕ) :
    (fun q ↦ only p xs q ++ only p ys q) = only p (xs ++ ys) := by
  funext q
  by_cases hq : q = p
  · subst hq
    simp only [only_self]
  · simp only [only_of_ne hq, List.append_nil]

end PoolMemory

def Represented (pools : PoolId → DpaObjPool) (s : PoolMemory) (F : PoolId → Finset ℕ) : Prop :=
  ∀ p, Represents (pools p) (s.words p) (F p)

def FreeObjs (F : PoolId → Finset ℕ) (xs : PoolId → List ℕ) : Prop :=
  ∀ p, (xs p).Nodup ∧ ∀ x ∈ xs p, x ∈ F p

section

variable {pools : PoolId → DpaObjPool} {s : PoolMemory} {F : PoolId → Finset ℕ}
  {xs ys : PoolId → List ℕ} {p : PoolId}

theorem Represents.takeAll {pool : DpaObjPool} {w : PoolWords} {F : Finset ℕ} {xs : List ℕ}
    (h : Represents pool w F) (hnd : xs.Nodup) (hsub : ∀ x ∈ xs, x ∈ F) :
    Represents pool (w.takeAll xs) (F \ xs.toFinset) := by
  induction xs generalizing w F with
  | nil => simpa [PoolWords.takeAll] using h
  | cons x xs ih =>
    obtain ⟨hx, hnd⟩ := List.nodup_cons.1 hnd
    have hsub' : ∀ y ∈ xs, y ∈ F.erase x := fun y hy ↦
      Finset.mem_erase.2 ⟨fun heq ↦ hx (heq ▸ hy), hsub y (List.mem_cons_of_mem x hy)⟩
    have hrest := ih (h.take (hsub x List.mem_cons_self)) hnd hsub'
    have hset : F.erase x \ xs.toFinset = F \ (x :: xs).toFinset := by
      ext y
      simp only [Finset.mem_sdiff, Finset.mem_erase, List.toFinset_cons, Finset.mem_insert, not_or]
      tauto
    rwa [hset] at hrest

theorem Represents.length_le {pool : DpaObjPool} {w : PoolWords} {F : Finset ℕ} {xs : List ℕ}
    (h : Represents pool w F) (hnd : xs.Nodup) (hsub : ∀ x ∈ xs, x ∈ F) :
    xs.length ≤ w.objFree := by
  rw [h.count, ← List.toFinset_card_of_nodup hnd]
  exact Finset.card_le_card fun x hx ↦ hsub x (List.mem_toFinset.1 hx)

theorem Represents.bit_of_mem {pool : DpaObjPool} {w : PoolWords} {F : Finset ℕ} {x : ℕ}
    (h : Represents pool w F) (hx : x ∈ F) : bit w.bitmap x = true := by
  rw [h.bits x (h.range x hx).2]
  exact decide_eq_true hx

theorem Represented.takeAll (h : Represented pools s F) (hxs : FreeObjs F xs) :
    Represented pools (s.takeAll xs) fun p ↦ F p \ (xs p).toFinset :=
  fun p ↦ (h p).takeAll (hxs p).1 (hxs p).2

theorem Represented.putAll_takeAll (h : Represented pools s F) (hxs : FreeObjs F xs)
    (hperm : ∀ p, (ys p).Perm (xs p)) : (s.takeAll xs).putAll ys = s := by
  have hwords : ((s.takeAll xs).putAll ys).words = s.words := by
    funext p
    exact PoolWords.putAll_takeAll (fun x hx ↦ (h p).bit_of_mem ((hxs p).2 x hx))
      ((h p).length_le (hxs p).1 (hxs p).2) (hperm p)
  exact congrArg (fun words ↦ { s with words := words }) hwords

theorem Represented.perm_of_putAll_takeAll (h : Represented pools s F) (hxs : FreeObjs F xs)
    (heq : ((s.takeAll xs).putAll ys).words p = s.words p) : (ys p).Perm (xs p) :=
  PoolWords.perm_of_putAll_takeAll (hxs p).1 (fun x hx ↦ (h p).bit_of_mem ((hxs p).2 x hx))
    ((h p).length_le (hxs p).1 (hxs p).2) heq

theorem FreeObjs.append (hxs : FreeObjs F xs)
    (hys : FreeObjs (fun p ↦ F p \ (xs p).toFinset) ys) : FreeObjs F fun p ↦ xs p ++ ys p := by
  intro p
  have hmem : ∀ y ∈ ys p, y ∈ F p ∧ y ∉ xs p := fun y hy ↦ by
    simpa only [Finset.mem_sdiff, List.mem_toFinset] using (hys p).2 y hy
  refine ⟨(hxs p).1.append (hys p).1 fun x hx hx' ↦ (hmem x hx').2 hx, fun x hx ↦ ?_⟩
  rcases List.mem_append.1 hx with hx | hx
  · exact (hxs p).2 x hx
  · exact (hmem x hx).1

theorem FreeObjs.only {x : ℕ} (hx : x ∈ F p) : FreeObjs F (PoolMemory.only p [x]) := by
  intro q
  by_cases hq : q = p
  · subst hq
    rw [PoolMemory.only_self]
    exact ⟨List.nodup_singleton x, fun y hy ↦ (List.mem_singleton.1 hy) ▸ hx⟩
  · rw [PoolMemory.only_of_ne hq]
    exact ⟨List.nodup_nil, fun y hy ↦ absurd hy List.not_mem_nil⟩

theorem FreeObjs.of_only {l : List ℕ} (h : FreeObjs F (PoolMemory.only p l)) :
    l.Nodup ∧ ∀ x ∈ l, x ∈ F p := by
  have hp := h p
  rwa [PoolMemory.only_self] at hp

theorem only_perm {l l' : List ℕ} (h : l.Perm l') (q : PoolId) :
    (PoolMemory.only p l q).Perm (PoolMemory.only p l' q) := by
  by_cases hq : q = p
  · subst hq
    rwa [PoolMemory.only_self, PoolMemory.only_self]
  · rw [PoolMemory.only_of_ne hq, PoolMemory.only_of_ne hq]

theorem FreeObjs.nil : FreeObjs F fun _ ↦ [] :=
  fun _ ↦ ⟨List.nodup_nil, fun _ hx ↦ absurd hx List.not_mem_nil⟩

theorem run_malloc (hp : (pools p).Sound) (h : Represented pools s F) (hF : (F p).Nonempty)
    {l : ℤ} (hlen : u32 l ≤ (pools p).objSize) :
    ∃ x ∈ F p, (dpaObjMalloc (pools p) p l).run (access pools) s =
      some (((pools p).addrTbl x).vaddr, s.takeAll (PoolMemory.only p [x])) := by
  refine ⟨_, ((h p).first_mem hp hF).1, ?_⟩
  rw [run_dpaObjMalloc hp (h p) hF hlen, ← PoolMemory.set_takeAll]
  rfl

theorem FreeObjs.card (hxs : FreeObjs F xs) (p : PoolId) :
    (F p \ (xs p).toFinset).card + (xs p).length = (F p).card := by
  have hsub : (xs p).toFinset ⊆ F p := fun x hx ↦ (hxs p).2 x (List.mem_toFinset.1 hx)
  rw [← List.toFinset_card_of_nodup (hxs p).1]
  exact Finset.card_sdiff_add_card_eq_card hsub

theorem run_malloc_none (h : Represented pools s F) {l : ℤ}
    (hfail : F p = ∅ ∨ (pools p).objSize < u32 l) :
    (dpaObjMalloc (pools p) p l).run (access pools) s = some (0, s) :=
  run_dpaObjMalloc_none (h p) hfail

theorem run_free (hp : (pools p).Sound) {x : ℕ} (hx : x < (pools p).objTotal) (s : PoolMemory) :
    (dpaObjFree (pools p) p x).run (access pools) s =
      some ((), s.putAll (PoolMemory.only p [x])) := by
  rw [run_dpaObjFree hp hx, ← PoolMemory.set_putAll]
  rfl

theorem run_freeVa (hp : (pools p).Sound) (hm : (pools p).Mapped) {vaddr x : ℕ} (hx : IsObject (pools p) vaddr x)
    (s : PoolMemory) : (dpaObjFreeVa (pools p) p vaddr).run (access pools) s =
      some ((), s.putAll (PoolMemory.only p [x])) := by
  obtain ⟨-, hlt, rfl⟩ := hx
  rw [run_dpaObjFreeVa hp hm hlt, ← PoolMemory.set_putAll]
  rfl

theorem run_lock_bind {α : Type} (hlock : s.locked = false) (f : Unit → PoolProgram α) :
    (Program.perform PoolAccess.lock >>= f).run (access pools) s =
      (f ()).run (access pools) { s with locked := true } :=
  Program.run_act_of (R := PoolAccess.Answer) (a := .lock) (by simp [access, hlock]) f

theorem run_unlock_bind {α : Type} (f : Unit → PoolProgram α) :
    (Program.perform PoolAccess.unlock >>= f).run (access pools) s =
      (f ()).run (access pools) { s with locked := false } :=
  Program.run_act_of (R := PoolAccess.Answer) (a := .unlock) rfl f

theorem unlock_lock (hlock : s.locked = false) :
    ({ s with locked := false } : PoolMemory) = s := by
  rw [← hlock]

theorem unlock_takeAll (hlock : s.locked = false) (xs : PoolId → List ℕ) :
    ({ ({ s with locked := true } : PoolMemory).takeAll xs with locked := false } : PoolMemory) =
      s.takeAll xs := by
  rw [← unlock_lock hlock]
  rfl

theorem unlock_putAll (hlock : s.locked = false) (xs : PoolId → List ℕ) :
    ({ ({ s with locked := true } : PoolMemory).putAll xs with locked := false } : PoolMemory) =
      s.putAll xs := by
  rw [← unlock_lock hlock]
  rfl

/-- The memory is the one that the objects `G` have been taken from. -/
structure Owned (m : PoolMemory) (F : PoolId → Finset ℕ) (s : PoolMemory)
    (G : PoolId → List ℕ) : Prop where
  free : FreeObjs F G
  memory : s = m.takeAll G

namespace Owned

open PoolMemory

variable {m : PoolMemory} {G A A' : PoolId → List ℕ}

theorem nil : Owned m F m fun _ ↦ [] := ⟨.nil, rfl⟩

theorem perm (h : Owned m F s G) (hperm : ∀ p, (G p).Perm (A p)) : Owned m F s A where
  free p := ⟨(hperm p).nodup_iff.1 (h.free p).1, fun x hx ↦ (h.free p).2 x ((hperm p).mem_iff.2 hx)⟩
  memory := h.memory.trans (takeAll_perm m hperm)

theorem represented (hm : Represented pools m F) (h : Owned m F s G) :
    Represented pools s fun p ↦ F p \ (G p).toFinset :=
  h.memory ▸ hm.takeAll h.free

theorem take (h : Owned m F s G) (hA : FreeObjs (fun p ↦ F p \ (G p).toFinset) A) :
    Owned m F (s.takeAll A) fun p ↦ G p ++ A p where
  free := h.free.append hA
  memory := by rw [h.memory, takeAll_takeAll]

theorem split (h : Owned m F s fun p ↦ G p ++ A p) :
    Owned m F (m.takeAll G) G ∧ FreeObjs (fun p ↦ F p \ (G p).toFinset) A := by
  refine ⟨⟨fun p ↦ ⟨(List.nodup_append.1 (h.free p).1).1, fun x hx ↦
    (h.free p).2 x (List.mem_append_left _ hx)⟩, rfl⟩, fun p ↦ ?_⟩
  obtain ⟨-, hA, hdisj⟩ := List.nodup_append.1 (h.free p).1
  refine ⟨hA, fun x hx ↦ Finset.mem_sdiff.2 ⟨(h.free p).2 x (List.mem_append_right _ hx), ?_⟩⟩
  rw [List.mem_toFinset]
  exact fun hG ↦ hdisj x hG x hx rfl

theorem put (hm : Represented pools m F) (h : Owned m F s fun p ↦ G p ++ A p)
    (hperm : ∀ p, (A' p).Perm (A p)) : Owned m F (s.putAll A') G := by
  obtain ⟨hG, hA⟩ := h.split
  have hback := (hG.represented hm).putAll_takeAll hA hperm
  rw [takeAll_takeAll, ← h.memory] at hback
  rwa [hback]

end Owned

theorem run_releases {f : ℕ → PoolProgram Unit} {i : ℕ → List ℕ} {l : List ℕ}
    (hf : ∀ j ∈ l, ∀ s, (f j).run (access pools) s =
      some ((), s.putAll (PoolMemory.only p (i j)))) (s : PoolMemory) :
    (Program.forEach f l).run (access pools) s =
      some ((), s.putAll (PoolMemory.only p (l.flatMap i))) := by
  refine (Program.run_forEach (R := PoolAccess.Answer)
    (g := fun s j ↦ s.putAll (PoolMemory.only p (i j))) hf s).trans (congrArg some ?_)
  refine congrArg (Prod.mk ()) ?_
  clear hf
  induction l generalizing s with
  | nil =>
    rw [List.flatMap_nil, PoolMemory.only_nil]
    rfl
  | cons j l ih =>
    rw [List.foldl_cons, ih, PoolMemory.putAll_putAll, PoolMemory.only_append, List.flatMap_cons]

end

end Dpa.Kernel
