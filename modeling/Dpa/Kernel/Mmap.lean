import Dpa.Kernel.LayoutSizes

namespace Dpa.Kernel

open MachineWord

variable {l : List (ℕ × ℕ)} {a i : ℕ} {remapOk : Remap → Bool}

def eagain : ℤ := 11

/-- The area that a process asks for; the offset it gives is not looked at. -/
structure Vma where
  vmStart : ℕ
  vmEnd : ℕ
  le : vmStart ≤ vmEnd

def mmapReturn (remapOk : Remap → Bool) : List (ℕ × ℕ) → ℤ → ℤ
  | [], _ => 0
  | (pfn, size) :: l, userSkip =>
    if remapOk ⟨userSkip, pfn, size⟩ then mmapReturn remapOk l (s32 (userSkip + size)) else -eagain

/-- The clusters of the three pools in the order of the mapping: page and size. -/
def DpaMemAllocator.mapped (alloc : DpaMemAllocator) : List (ℕ × ℕ) :=
  mmapClusters (alloc.pools .ifPool) ++ mmapClusters (alloc.pools .ringPool) ++
    mmapClusters (alloc.pools .bufPool)

def sizeBefore (l : List (ℕ × ℕ)) (i : ℕ) : ℕ := ((l.take i).map Prod.snd).sum

/-- Clusters are mapped one after another from the beginning of the area and inside of it, all of
them unless an error is returned, and a request that is too short gets one. -/
structure MapsWithin (alloc : DpaMemAllocator) (v : Vma) (maps : List Remap) (ret : ℤ) : Prop where
  cluster : ∀ (i : ℕ) (r : Remap), maps[i]? = some r → alloc.mapped[i]? = some (r.pfn, r.size)
  skip : ∀ (i : ℕ) (r : Remap), maps[i]? = some r → r.skip = (sizeBefore alloc.mapped i : ℕ)
  all : ret = 0 → maps.length = alloc.mapped.length
  inside : ∀ r ∈ maps, (v.vmStart : ℤ) ≤ v.vmStart + r.skip ∧
    (v.vmStart : ℤ) + r.skip + r.size ≤ v.vmEnd
  refused : v.vmEnd - v.vmStart < alloc.totalSize → ret ≠ 0

theorem sizeBefore_cons (pfn size : ℕ) (l : List (ℕ × ℕ)) (i : ℕ) :
    sizeBefore ((pfn, size) :: l) (i + 1) = size + sizeBefore l i := by
  simp [sizeBefore]

theorem sizeBefore_length (l : List (ℕ × ℕ)) : sizeBefore l l.length = (l.map Prod.snd).sum := by
  rw [sizeBefore, List.take_length]

theorem sizeBefore_le (l : List (ℕ × ℕ)) (i : ℕ) : sizeBefore l i ≤ (l.map Prod.snd).sum := by
  induction l generalizing i with
  | nil => simp [sizeBefore]
  | cons x l ih =>
    cases i with
    | zero => exact Nat.zero_le _
    | succ i =>
      rw [sizeBefore_cons, List.map_cons, List.sum_cons]
      exact Nat.add_le_add_left (ih i) _

theorem sizeBefore_succ {pfn size : ℕ} (h : l[i]? = some (pfn, size)) :
    sizeBefore l (i + 1) = sizeBefore l i + size := by
  induction l generalizing i with
  | nil => simp at h
  | cons x l ih =>
    cases i with
    | zero =>
      obtain rfl : x = (pfn, size) := by simpa using h
      simp [sizeBefore]
    | succ i =>
      rw [sizeBefore_cons, sizeBefore_cons, ih (by simpa using h), Nat.add_assoc]

/-- Whatever `remap_pfn_range` answers, the clusters are mapped in order. -/
theorem mmapLoop_cluster (remapOk : Remap → Bool) (a : ℤ) {r : Remap}
    (h : (mmapLoop remapOk l a).1[i]? = some r) : l[i]? = some (r.pfn, r.size) := by
  induction l generalizing a i with
  | nil => simp [mmapLoop] at h
  | cons x l ih =>
    obtain ⟨pfn, size⟩ := x
    rw [mmapLoop] at h
    by_cases hok : remapOk ⟨a, pfn, size⟩ = true
    · rw [if_pos hok] at h
      cases i with
      | zero =>
        obtain rfl : (⟨a, pfn, size⟩ : Remap) = r := by simpa using h
        rfl
      | succ i => exact ih _ (by simpa using h)
    · rw [if_neg hok] at h
      simp at h

/-- As long as every cluster begins below `2 ^ 31` it is mapped where the one before it ends. -/
theorem mmapLoop_skip {r : Remap} (hlt : ∀ i < l.length, a + sizeBefore l i < 2 ^ 31)
    (h : (mmapLoop remapOk l a).1[i]? = some r) : r.skip = (a + sizeBefore l i : ℕ) := by
  induction l generalizing a i with
  | nil => simp [mmapLoop] at h
  | cons x l ih =>
    obtain ⟨pfn, size⟩ := x
    rw [mmapLoop] at h
    by_cases hok : remapOk ⟨a, pfn, size⟩ = true
    · rw [if_pos hok] at h
      cases i with
      | zero =>
        obtain rfl : (⟨a, pfn, size⟩ : Remap) = r := by simpa using h
        rfl
      | succ i =>
        have hrest : ∀ j < l.length, a + size + sizeBefore l j < 2 ^ 31 := by
          intro j hj
          have hnext := hlt (j + 1) (Nat.succ_lt_succ hj)
          rwa [sizeBefore_cons, ← Nat.add_assoc] at hnext
        have h' : (mmapLoop remapOk l (s32 (a + size))).1[i]? = some r := by simpa using h
        have hne : 0 < l.length :=
          (List.getElem?_eq_some_iff.1 (mmapLoop_cluster remapOk _ h')).1.pos
        have hsmall := hrest 0 hne
        have hskip : s32 ((a : ℤ) + size) = ((a + size : ℕ) : ℤ) := by
          rw [s32_of_mem (by omega) (by omega)]
          rfl
        rw [hskip] at h'
        rw [ih hrest h', sizeBefore_cons, Nat.add_assoc]
    · rw [if_neg hok] at h
      simp at h

theorem length_mmapLoop (remapOk : Remap → Bool) (l : List (ℕ × ℕ)) (a : ℤ)
    (h : mmapReturn remapOk l a = 0) : (mmapLoop remapOk l a).1.length = l.length := by
  induction l generalizing a with
  | nil => rfl
  | cons x l ih =>
    obtain ⟨pfn, size⟩ := x
    rw [mmapReturn] at h
    rw [mmapLoop]
    by_cases hok : remapOk ⟨a, pfn, size⟩ = true
    · rw [if_pos hok] at h ⊢
      exact congrArg Nat.succ (ih _ h)
    · rw [if_neg hok] at h
      exact absurd h (by decide)

theorem mmapReturn_allOk (l : List (ℕ × ℕ)) (a : ℤ) : mmapReturn allOk l a = 0 := by
  induction l generalizing a with
  | nil => rfl
  | cons x l ih => exact ih _

theorem mmapLoop_skip_lt {b : ℤ} (hb : b < 2 ^ 31) {r : Remap}
    (h : r ∈ (mmapLoop remapOk l b).1) : r.skip < 2 ^ 31 := by
  induction l generalizing b with
  | nil => simp [mmapLoop] at h
  | cons x l ih =>
    obtain ⟨pfn, size⟩ := x
    rw [mmapLoop] at h
    by_cases hok : remapOk ⟨b, pfn, size⟩ = true
    · rw [if_pos hok] at h
      rcases List.mem_cons.1 h with rfl | h
      · exact hb
      · exact ih (by unfold s32; omega) h
    · rw [if_neg hok] at h
      simp at h

/-- `dpa_mmap` keeps inside the area exactly if the area takes all the clusters, is not shorter than
the total size, and no cluster begins at `2 ^ 31` or behind. -/
theorem dpaMmap_within_iff (alloc : DpaMemAllocator) (v : Vma) :
    (∀ remapOk, MapsWithin alloc v (dpaMmap remapOk alloc.pools).1
      (mmapReturn remapOk alloc.mapped 0)) ↔
    (alloc.mapped.map Prod.snd).sum ≤ v.vmEnd - v.vmStart ∧
      alloc.totalSize ≤ v.vmEnd - v.vmStart ∧
      ∀ i < alloc.mapped.length, sizeBefore alloc.mapped i < 2 ^ 31 := by
  have hle := v.le
  constructor
  · intro hall
    have hwithin := hall allOk
    have hret := mmapReturn_allOk alloc.mapped 0
    have hlen : (dpaMmap allOk alloc.pools).1.length = alloc.mapped.length := hwithin.all hret
    have hget : ∀ i < alloc.mapped.length, ∃ r, (dpaMmap allOk alloc.pools).1[i]? = some r :=
      fun i hi ↦ ⟨_, List.getElem?_eq_getElem (hlen ▸ hi)⟩
    refine ⟨?_, ?_, ?_⟩
    · rcases Nat.eq_zero_or_pos alloc.mapped.length with hnil | hpos
      · rw [List.length_eq_zero_iff.1 hnil]
        exact Nat.zero_le _
      · obtain ⟨r, hr⟩ := hget (alloc.mapped.length - 1) (by omega)
        have hend := (hwithin.inside r (List.mem_of_getElem? hr)).2
        have hlast := sizeBefore_succ (hwithin.cluster _ r hr)
        rw [Nat.sub_add_cancel hpos, sizeBefore_length] at hlast
        have hskip := hwithin.skip _ r hr
        omega
    · by_contra hshort
      exact hwithin.refused (not_le.1 hshort) hret
    · intro i hi
      obtain ⟨r, hr⟩ := hget i hi
      have hskip := hwithin.skip i r hr
      have hlt : r.skip < 2 ^ 31 :=
        mmapLoop_skip_lt (by decide) (List.mem_of_getElem? hr)
      omega
  · rintro ⟨hsum, htotal, hint⟩ remapOk
    have hskip : ∀ (i : ℕ) (r : Remap), (dpaMmap remapOk alloc.pools).1[i]? = some r →
        r.skip = (sizeBefore alloc.mapped i : ℕ) := by
      intro i r hr
      have hexact := mmapLoop_skip (a := 0) (l := alloc.mapped)
        (fun j hj ↦ by rw [Nat.zero_add]; exact hint j hj) hr
      rwa [Nat.zero_add] at hexact
    have hcluster : ∀ (i : ℕ) (r : Remap), (dpaMmap remapOk alloc.pools).1[i]? = some r →
        alloc.mapped[i]? = some (r.pfn, r.size) := fun i r hr ↦ mmapLoop_cluster remapOk 0 hr
    constructor
    case cluster => exact hcluster
    case skip => exact hskip
    case all => exact length_mmapLoop remapOk alloc.mapped 0
    case inside =>
      intro r hr
      obtain ⟨i, hi⟩ := List.getElem?_of_mem hr
      have hnext := sizeBefore_succ (hcluster i r hi)
      have hbound := sizeBefore_le alloc.mapped (i + 1)
      have hr' := hskip i r hi
      omega
    case refused => exact fun hshort ↦ absurd htotal (not_le.2 hshort)

/-- A process asks for a single page. -/
theorem onePage_not_within : ∃ alloc,
    dpaMemInit farPages id (dpaParamInit ⟨1, 1, 256, 1024⟩) = some alloc ∧
      ¬∀ remapOk, MapsWithin alloc ⟨65536, 69632, by decide⟩ (dpaMmap remapOk alloc.pools).1
        (mmapReturn remapOk alloc.mapped 0) := by
  have htotal : (dpaMemInit farPages id (dpaParamInit ⟨1, 1, 256, 1024⟩)).map
      DpaMemAllocator.totalSize = some 380928 := by decide +kernel
  obtain ⟨alloc, halloc, hsize⟩ := Option.map_eq_some_iff.1 htotal
  refine ⟨alloc, halloc, fun hall ↦ ?_⟩
  refine (hall allOk).refused ?_ (mmapReturn_allOk _ _)
  rw [hsize]
  decide

end Dpa.Kernel
