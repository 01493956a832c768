import StartKernel.Proofs.AllocPages

/-!
# `StartKernel.Proofs.Uvm`: address spaces are created and destroyed

* `memoryCreateUvm_cases`: a new address space has a fresh directory with an empty user half.
* `memoryDestroyUvm_spec`: destroying an address space frees its directory, its tables and its
  pages, and no other frame (`Footprint`).
* `MemInv.touch_page`: the contents of a page are written.
-/

set_option autoImplicit false

namespace StartKernel

open ByteMem (Mem load32 store32 fill AgreeOff)
open Ownership (Owned)

variable {L : Layout} {s s' : MemState} {live held : List Nat} {m m' : Mem} {a' : AddrAlloc}
  {d d' f g i j k n t p pte pde cr3 : Nat}

/-! ### `memory_create_uvm` -/

/-- The loop of `memory_create_uvm`: the entries of the range are those of `k`. -/
theorem copyPdes_spec (m : Mem) (hd : d % 4096 = 0) (hk : k % 4096 = 0) (hne : k ≠ d)
    (hn : i + n ≤ 1024) :
    TouchedOnly (· = d) m (copyPdes m d k i n) ∧
      ∀ j < 1024, entryAt (copyPdes m d k i n) d j =
        if i ≤ j ∧ j < i + n then entryAt m k j else entryAt m d j := by
  induction n generalizing m i with
  | zero =>
    refine ⟨AgreeOff.refl _ m, fun j hj => ?_⟩
    rw [if_neg (by omega)]
    rfl
  | succ n ih =>
    obtain ⟨htouched, hentry⟩ := ih (store32 m (d + 4 * i) (load32 m (k + 4 * i)))
      (i := i + 1) (by omega)
    have hstore := touchedOnly_store m (load32 m (k + 4 * i)) hd (i := i) (by omega)
    refine ⟨hstore.trans htouched, fun j hj => ?_⟩
    show entryAt (copyPdes (store32 m (d + 4 * i) (load32 m (k + 4 * i))) d k (i + 1) n) d j = _
    rw [hentry j hj, entryAt_touched hstore hk hne hj]
    by_cases hji : j = i
    · -- The entry that this turn of the loop copies.
      subst hji
      rw [if_neg (by omega), if_pos (by omega), entryAt_store_same m (ByteMem.load32_lt m _)]
      rfl
    · rw [entryAt_store_other m _ hji]
      congr 1
      simp only [eq_iff_iff]
      omega

/-- The memory of a new address space with the directory `d`. -/
def newDir (L : Layout) (m : Mem) (d : Nat) : Mem :=
  copyPdes (kernelMemset m d 0 memPageSize) d L.kernelPageDir 0 (pdeIndex memoryTaskBase)

attribute [irreducible] newDir

/-- The directory of a new address space: the kernel half is copied, and the user half is
empty. -/
theorem newDir_spec (m : Mem) (hd : IsFrame d) (hk : L.kernelPageDir ≠ d) :
    TouchedOnly (· = d) m (newDir L m d) ∧
      (∀ i < 512, entryAt (newDir L m d) d i = entryAt m L.kernelPageDir i) ∧
      ∀ i, 512 ≤ i → i < 1024 → entryAt (newDir L m d) d i = 0 := by
  have hset : kernelMemset m d 0 memPageSize = fill m d 0#8 4096 := by
    have habove := hd.above
    unfold memPageSize
    exact kernelMemset_page m (by omega)
  have hfill := touchedOnly_fill m 0#8 hd.aligned
  have hhalf : pdeIndex memoryTaskBase = 512 := by decide
  obtain ⟨htouched, hentry⟩ := copyPdes_spec (i := 0) (n := 512) (fill m d 0#8 4096) hd.aligned
    L.aligned hk (by omega)
  unfold newDir
  rw [hset, hhalf]
  refine ⟨hfill.trans htouched, fun i hi => ?_, fun i h₁ h₂ => ?_⟩
  · rw [hentry i (by omega), if_pos (by omega), entryAt_touched hfill L.aligned hk (by omega)]
  · rw [hentry i h₂, if_neg (by omega), entryAt_fill_zero m h₂]

/-- The new directory has no tables in the user half. -/
theorem newDir_tableAt (m : Mem) (hd : IsFrame d) (hk : L.kernelPageDir ≠ d) (h₁ : 512 ≤ i)
    (h₂ : i < 1024) : tableAt (newDir L m d) d i = none := by
  rw [tableAt_eq_none, (newDir_spec m hd hk).2.2 i h₁ h₂]
  rfl

section Create

variable (h : MemInv L s live held) (ha : Allocated s.paddrAlloc d a')

include h ha

/-- The frames in use after an address space was created. -/
theorem MemInv.uses_newDir {r : Role} (hu : Uses L (newDir L s.mem d) (d :: live) held f r) :
    Uses L s.mem live held f r ∨ (f = d ∧ r = .dir d) := by
  have hk := h.root_ne_fresh (Or.inl rfl) ha.fresh ha.frame
  obtain ⟨htouched, -, -⟩ := newDir_spec (L := L) s.mem ha.frame hk
  -- An entry of the new directory has no table. Every other entry is an old one.
  have hold : ∀ d' i' t', OwnsEntry L (d :: live) d' i' →
      tableAt (newDir L s.mem d) d' i' = some t' → OwnsEntry L live d' i' ∧ d' ≠ d := by
    intro d' i' t' ho' ht'
    rcases ho'.2 with rfl | ⟨hd', hlow⟩
    · exact ⟨ownsEntry_kernel ho'.1, hk⟩
    · rcases List.mem_cons.mp hd' with rfl | hd'
      · rw [newDir_tableAt s.mem ha.frame hk hlow ho'.1] at ht'
        cases ht'
      · exact ⟨ownsEntry_user hd' hlow ho'.1, h.root_ne_fresh (Or.inr hd') ha.fresh ha.frame⟩
  cases r with
  | dir d' =>
    obtain ⟨hd', rfl⟩ := hu
    rcases List.mem_cons.mp hd' with rfl | hd'
    · exact Or.inr ⟨rfl, rfl⟩
    · exact Or.inl ⟨hd', rfl⟩
  | held p => exact Or.inl hu
  | table d' i' =>
    obtain ⟨ho', ht'⟩ := hu
    obtain ⟨ho, hne⟩ := hold d' i' f ho' ht'
    rw [tableAt_touched htouched (h.root_aligned ho.root) hne ho.1] at ht'
    exact Or.inl ⟨ho, ht'⟩
  | page d' i' j' =>
    obtain ⟨hd', h₁, h₂, hj', w, hw, hf⟩ := hu
    obtain ⟨t', ht', -, -⟩ := pageAt_eq_some hw
    obtain ⟨ho, hne⟩ := hold d' i' t' (ownsEntry_user hd' h₁ h₂) ht'
    have hlive : d' ∈ live := (List.mem_cons.mp hd').resolve_left hne
    refine Or.inl ⟨hlive, h₁, h₂, hj', w, ?_, hf⟩
    rw [pageAt_touched htouched (h.root_aligned ho.root) hne h₂ hj'
      fun t₁ ht₁ => h.table_ne_fresh ho ht₁ ha.fresh] at hw
    exact hw

/-- An address space is created in a frame that was not taken. -/
theorem MemInv.create : MemInv L ⟨newDir L s.mem d, a'⟩ (d :: live) held := by
  have hk := h.root_ne_fresh (Or.inl rfl) ha.fresh ha.frame
  have hnew : d ∉ live := fun hd => h.root_ne_fresh (Or.inr hd) ha.fresh ha.frame rfl
  obtain ⟨htouched, hlow, hhigh⟩ := newDir_spec (L := L) s.mem ha.frame hk
  have hentry : ∀ d' ∈ live, ∀ i < 1024, entryAt (newDir L s.mem d) d' i = entryAt s.mem d' i :=
    fun d' hd' i hi => entryAt_touched htouched (h.root_aligned (Or.inr hd'))
      (h.root_ne_fresh (Or.inr hd') ha.fresh ha.frame) hi
  refine ⟨ha.shape, h.image, ?_, ?_, ?_, List.nodup_cons.mpr ⟨hnew, h.liveNodup⟩, h.heldNodup⟩
  · exact h.owned.insert _ (h.unused ha.fresh) (fun _ _ hu => h.uses_newDir ha hu)
      (fun g hg => (ha.taken g).mpr (Or.inl hg)) ((ha.taken d).mpr (Or.inr rfl))
  · intro d' hd' i hi
    show entryAt (newDir L s.mem d) d' i = entryAt (newDir L s.mem d) _ i
    rw [entryAt_touched htouched L.aligned hk (by omega)]
    rcases List.mem_cons.mp hd' with rfl | hd'
    · exact hlow i hi
    · rw [hentry d' hd' i (by omega)]
      exact h.shared d' hd' i hi
  · intro d' hd' i h₁ h₂
    show present (entryAt (newDir L s.mem d) d' i) = true → entryAt (newDir L s.mem d) d' i % 8 = _
    rcases List.mem_cons.mp hd' with rfl | hd'
    · rw [hhigh i h₁ h₂]
      intro hp
      cases hp
    · rw [hentry d' hd' i h₂]
      exact h.userPde d' hd' i h₁ h₂

end Create

/-- The two ways in which `memory_create_uvm` ends. -/
theorem memoryCreateUvm_cases (h : MemInv L s live held) :
    (∃ d a', memoryCreateUvm L s = (d, ⟨newDir L s.mem d, a'⟩) ∧
      Allocated s.paddrAlloc d a' ∧ MemInv L ⟨newDir L s.mem d, a'⟩ (d :: live) held) ∨
    (memoryCreateUvm L s = (0, s) ∧ freeCount s.paddrAlloc = 0) := by
  unfold memoryCreateUvm
  rcases allocPage_cases h.shape with ⟨d, a', he, ha⟩ | ⟨he, hzero⟩
  · left
    have hpos : d ≠ 0 := ha.frame.ne_zero
    refine ⟨d, a', ?_, ha, h.create ha⟩
    unfold newDir
    simp only [he, hpos, if_false]
  · right
    refine ⟨?_, hzero⟩
    simp only [he, if_true]

/-! ### `memory_destroy_uvm` -/

/-- The inner loop frees the pages of `n` entries. -/
theorem freePages_spec (pte : Nat) (h : PallocShape s.paddrAlloc)
    (hf : ∀ j < n, present (load32 s.mem (pte + 4 * j)) = true →
      IsFrame (ptePaddr (load32 s.mem (pte + 4 * j)))) :
    (freePages s pte n).mem = s.mem ∧ PallocShape (freePages s pte n).paddrAlloc ∧
      ∀ g, Taken (freePages s pte n).paddrAlloc g ↔ Taken s.paddrAlloc g ∧
        ∀ j < n, present (load32 s.mem (pte + 4 * j)) = true →
          ptePaddr (load32 s.mem (pte + 4 * j)) ≠ g := by
  induction n generalizing s pte with
  | zero => exact ⟨rfl, h, fun g => by simp [freePages]⟩
  | succ n ih =>
    have hnext : ∀ j, pte + 4 + 4 * j = pte + 4 * (j + 1) := fun j => by omega
    have hfirst := hf 0 (by omega)
    rw [Nat.mul_zero, Nat.add_zero] at hfirst
    -- A property of all entries is one of the first entry and of the others.
    have hall : ∀ P : Nat → Prop, (∀ j < n + 1, P (pte + 4 * j)) ↔
        P pte ∧ ∀ j < n, P (pte + 4 + 4 * j) := by
      intro P
      constructor
      · intro hP
        refine ⟨hP 0 (by omega), fun j hj => ?_⟩
        rw [hnext]
        exact hP (j + 1) (by omega)
      · rintro ⟨h0, hP⟩ j hj
        cases j with
        | zero => exact h0
        | succ j => rw [← hnext]; exact hP j (by omega)
    have hrest := ((hall fun a => present (load32 s.mem a) = true →
      IsFrame (ptePaddr (load32 s.mem a))).mp hf).2
    unfold freePages
    split
    · rename_i hp
      obtain ⟨hshape, htaken⟩ := addrFreePage_one h (hfirst hp)
      obtain ⟨hmem, hshape', hrec⟩ := ih (pte + 4)
        (s := s.freePage (ptePaddr (load32 s.mem pte)) 1) hshape hrest
      refine ⟨hmem, hshape', fun g => ?_⟩
      rw [hrec g, hall fun a => present (load32 s.mem a) = true → ptePaddr (load32 s.mem a) ≠ g]
      show (Taken (addrFreePage s.paddrAlloc (ptePaddr (load32 s.mem pte)) 1) g ∧ _) ↔ _
      rw [htaken g]
      constructor
      · rintro ⟨⟨ht, hne⟩, hr⟩
        exact ⟨ht, fun _ he => hne he.symm, hr⟩
      · rintro ⟨ht, hne, hr⟩
        exact ⟨⟨ht, fun he => hne hp he.symm⟩, hr⟩
    · rename_i hp
      obtain ⟨hmem, hshape', hrec⟩ := ih (pte + 4) h hrest
      refine ⟨hmem, hshape', fun g => ?_⟩
      rw [hrec g, hall fun a => present (load32 s.mem a) = true → ptePaddr (load32 s.mem a) ≠ g]
      constructor
      · rintro ⟨ht, hr⟩
        exact ⟨ht, fun hp' => absurd hp' hp, hr⟩
      · rintro ⟨ht, -, hr⟩
        exact ⟨ht, hr⟩

/-- The frames behind the entry `i` of a directory: its table, and the pages of the table. -/
def EntryFrame (m : Mem) (d i g : Nat) : Prop :=
  ∃ t, tableAt m d i = some t ∧
    (g = t ∨ ∃ j < 1024, ∃ v, pageAt m d i j = some v ∧ ptePaddr v = g)

/-- The frames of an address space: the directory, and what is behind its user half. -/
def Footprint (m : Mem) (d g : Nat) : Prop :=
  g = d ∨ ∃ i, 512 ≤ i ∧ i < 1024 ∧ EntryFrame m d i g

theorem pageAt_iff (ht : tableAt m d i = some t) {v : Nat} :
    pageAt m d i j = some v ↔ present (entryAt m t j) = true ∧ entryAt m t j = v := by
  rw [pageAt_of_table ht]
  split
  · rename_i hp
    simp [hp]
  · rename_i hp
    simp [hp]

/-- The outer loop frees what is behind `n` entries of a directory. -/
theorem freeTables_spec (h : PallocShape s.paddrAlloc)
    (hf : ∀ i', i ≤ i' → i' < i + n → ∀ g, EntryFrame s.mem d i' g → IsFrame g) :
    (freeTables s (d + 4 * i) n).mem = s.mem ∧
      PallocShape (freeTables s (d + 4 * i) n).paddrAlloc ∧
      ∀ g, Taken (freeTables s (d + 4 * i) n).paddrAlloc g ↔ Taken s.paddrAlloc g ∧
        ∀ i', i ≤ i' → i' < i + n → ¬ EntryFrame s.mem d i' g := by
  induction n generalizing s i with
  | zero =>
    refine ⟨rfl, h, fun g => ?_⟩
    simp only [freeTables, iff_self_and]
    intro _ i' h₁ h₂
    omega
  | succ n ih =>
    have hrest : ∀ i', i + 1 ≤ i' → i' < i + 1 + n → ∀ g, EntryFrame s.mem d i' g → IsFrame g :=
      fun i' h₁ h₂ => hf i' (by omega) (by omega)
    -- A property of all entries is one of the entry `i` and of the others.
    have hall : ∀ P : Nat → Prop, (∀ i', i ≤ i' → i' < i + (n + 1) → P i') ↔
        P i ∧ ∀ i', i + 1 ≤ i' → i' < i + 1 + n → P i' := by
      intro P
      constructor
      · intro hP
        exact ⟨hP i (by omega) (by omega), fun i' h₁ h₂ => hP i' (by omega) (by omega)⟩
      · rintro ⟨hi, hP⟩ i' h₁ h₂
        by_cases he : i' = i
        · exact he ▸ hi
        · exact hP i' (by omega) (by omega)
    unfold freeTables
    split
    · rename_i hp
      obtain ⟨t, ht⟩ : ∃ t, tableAt s.mem d i = some t := by
        cases hc : tableAt s.mem d i with
        | none => rw [tableAt_eq_none, entryAt, hp] at hc; cases hc
        | some t => exact ⟨t, rfl⟩
      have hpaddr : pdePaddr (load32 s.mem (d + 4 * i)) = t := (tableAt_eq_some ht).2
      have hframe : ∀ g, EntryFrame s.mem d i g → IsFrame g := hf i (by omega) (by omega)
      -- First the pages of the table are freed, and then the table.
      obtain ⟨hmem₁, hshape₁, htaken₁⟩ := freePages_spec (s := s) (n := 1024) t h
        fun j hj hpj => hframe _ ⟨t, ht, Or.inr ⟨j, hj, _, (pageAt_iff ht).mpr ⟨hpj, rfl⟩, rfl⟩⟩
      obtain ⟨hshape₂, htaken₂⟩ := addrFreePage_one hshape₁ (hframe t ⟨t, ht, Or.inl rfl⟩)
      simp only [hpaddr]
      have hmem₂ : ((freePages s t pteCnt).freePage t 1).mem = s.mem := hmem₁
      obtain ⟨hmem, hshape, hrec⟩ := ih (s := (freePages s t pteCnt).freePage t 1) (i := i + 1)
        hshape₂ (by rw [hmem₂]; exact hrest)
      rw [show d + 4 * (i + 1) = d + 4 * i + 4 by omega] at hmem hshape hrec
      refine ⟨hmem.trans hmem₂, hshape, fun g => ?_⟩
      rw [hrec g, hmem₂, hall fun i' => ¬ EntryFrame s.mem d i' g]
      show (Taken (addrFreePage (freePages s t 1024).paddrAlloc t 1) g ∧ _) ↔ _
      rw [htaken₂ g, htaken₁ g]
      constructor
      · rintro ⟨⟨⟨htk, hpages⟩, hgt⟩, hr⟩
        refine ⟨htk, ?_, hr⟩
        rintro ⟨t', ht', hg⟩
        obtain rfl : t = t' := Option.some.inj (ht.symm.trans ht')
        rcases hg with rfl | ⟨j, hj, v, hv, hg⟩
        · exact hgt rfl
        · obtain ⟨hpj, rfl⟩ := (pageAt_iff ht).mp hv
          exact hpages j hj hpj hg
      · rintro ⟨htk, hno, hr⟩
        refine ⟨⟨⟨htk, fun j hj hpj hg => ?_⟩, fun hg => hno ⟨t, ht, Or.inl hg⟩⟩, hr⟩
        exact hno ⟨t, ht, Or.inr ⟨j, hj, _, (pageAt_iff ht).mpr ⟨hpj, rfl⟩, hg⟩⟩
    · rename_i hp
      have hnone : tableAt s.mem d i = none := by
        rw [tableAt_eq_none]
        simpa [entryAt] using hp
      obtain ⟨hmem, hshape, hrec⟩ := ih (i := i + 1) h hrest
      rw [show d + 4 * (i + 1) = d + 4 * i + 4 by omega] at hmem hshape hrec
      refine ⟨hmem, hshape, fun g => ?_⟩
      rw [hrec g, hall fun i' => ¬ EntryFrame s.mem d i' g]
      constructor
      · rintro ⟨htk, hr⟩
        refine ⟨htk, ?_, hr⟩
        rintro ⟨t, ht, -⟩
        rw [hnone] at ht
        cases ht
      · rintro ⟨htk, -, hr⟩
        exact ⟨htk, hr⟩

/-- The frames of an address space are in use by it. -/
theorem footprint_uses (held : List Nat) (hd : d ∈ live) (hg : Footprint m d g) :
    Uses L m live held g (.dir d) ∨ (∃ i, Uses L m live held g (.table d i)) ∨
      ∃ i j, Uses L m live held g (.page d i j) := by
  rcases hg with rfl | ⟨i, h₁, h₂, t, ht, rfl | ⟨j, hj, v, hv, hg⟩⟩
  · exact Or.inl ⟨hd, rfl⟩
  · exact Or.inr (Or.inl ⟨i, ownsEntry_user hd h₁ h₂, ht⟩)
  · exact Or.inr (Or.inr ⟨i, j, hd, h₁, h₂, hj, v, hv, hg⟩)

theorem MemInv.footprint_taken (h : MemInv L s live held) (hd : d ∈ live)
    (hg : Footprint s.mem d g) : Taken s.paddrAlloc g := by
  rcases footprint_uses held hd hg with hu | ⟨i, hu⟩ | ⟨i, j, hu⟩
  · exact h.owned.taken hu
  · exact h.owned.taken hu
  · exact h.owned.taken hu

/-- `memory_destroy_uvm` frees exactly the frames of the address space. -/
theorem memoryDestroyUvm_spec (h : MemInv L s live held) (hd : d ∈ live) :
    ∃ a', memoryDestroyUvm s d = some ⟨s.mem, a'⟩ ∧ PallocShape a' ∧
      ∀ g, Taken a' g ↔ Taken s.paddrAlloc g ∧ ¬ Footprint s.mem d g := by
  have hdir := h.dir_isFrame hd
  have hpos : d ≠ 0 := by
    have := hdir.above
    omega
  obtain ⟨hmem, hshape, htaken⟩ := freeTables_spec (i := 512) (n := 512) (d := d) h.shape
    fun i h₁ h₂ g hg => (h.footprint_taken hd (Or.inr ⟨i, h₁, by omega, hg⟩)).isFrame h.shape
  obtain ⟨hshape', htaken'⟩ := addrFreePage_one hshape hdir
  refine ⟨addrFreePage (freeTables s (d + 4 * 512) 512).paddrAlloc d 1, ?_, hshape', fun g => ?_⟩
  · have hhalf : pdeIndex memoryTaskBase = 512 := by decide
    have hrest : pdeCnt - 512 = 512 := by decide
    unfold memoryDestroyUvm
    simp only [hpos, if_false, hhalf, hrest, MemState.freePage, hmem]
  · rw [htaken' g, htaken g]
    unfold Footprint
    constructor
    · rintro ⟨⟨htk, hno⟩, hne⟩
      refine ⟨htk, ?_⟩
      rintro (rfl | ⟨i, h₁, h₂, hg⟩)
      · exact hne rfl
      · exact hno i h₁ (by omega) hg
    · rintro ⟨htk, hno⟩
      exact ⟨⟨htk, fun i h₁ h₂ hg => hno (Or.inr ⟨i, h₁, by omega, hg⟩)⟩,
        fun he => hno (Or.inl he)⟩

/-- Destroying an address space keeps the invariant for the others. -/
theorem MemInv.destroy (h : MemInv L s live held) (hd : d ∈ live) (hshape : PallocShape a')
    (htaken : ∀ g, Taken a' g ↔ Taken s.paddrAlloc g ∧ ¬ Footprint s.mem d g) :
    MemInv L ⟨s.mem, a'⟩ (live.erase d) held := by
  have hmem : ∀ d', d' ∈ live.erase d ↔ d' ≠ d ∧ d' ∈ live := fun d' =>
    h.liveNodup.mem_erase_iff
  have hk : d ≠ L.kernelPageDir := fun he => h.kernel_ne (h.dir_isFrame hd) he.symm
  refine ⟨hshape, h.image, ?_, fun d' hd' => h.shared d' ((hmem d').mp hd').2,
    fun d' hd' => h.userPde d' ((hmem d').mp hd').2, h.liveNodup.erase d, h.heldNodup⟩
  -- The roles of the address space end.
  refine h.owned.release (fun r => r = .dir d ∨ (∃ i, r = .table d i) ∨
    ∃ i j, r = .page d i j) ?_ ?_
  · intro f r hu
    cases r with
    | dir d' =>
      obtain ⟨hd', rfl⟩ := hu
      obtain ⟨hne, hlive⟩ := (hmem f).mp hd'
      exact ⟨⟨hlive, rfl⟩, by simp [hne]⟩
    | held p => exact ⟨hu, by simp⟩
    | table d' i =>
      obtain ⟨⟨hi, ho⟩, ht⟩ := hu
      have hne : d' ≠ d := ho.elim (fun he => he ▸ hk.symm) fun ho => ((hmem d').mp ho.1).1
      exact ⟨⟨⟨hi, ho.imp id fun ho => ⟨((hmem d').mp ho.1).2, ho.2⟩⟩, ht⟩, by simp [hne]⟩
    | page d' i j =>
      obtain ⟨hne, hlive⟩ := (hmem d').mp hu.1
      exact ⟨⟨hlive, hu.2⟩, by simp [hne]⟩
  · intro f hf hkeep
    refine (htaken f).mpr ⟨hf, fun hg => ?_⟩
    rcases footprint_uses held hd hg with hu | ⟨i, hu⟩ | ⟨i, j, hu⟩
    · exact hkeep _ hu (Or.inl rfl)
    · exact hkeep _ hu (Or.inr (Or.inl ⟨i, rfl⟩))
    · exact hkeep _ hu (Or.inr (Or.inr ⟨i, j, rfl⟩))

/-! ### Writing a page -/

/-- The contents of a frame change that is no directory and no table. -/
theorem MemInv.touch (h : MemInv L s live held) (htouched : TouchedOnly (· = p) s.mem m')
    (hdir : ∀ d, Root L live d → d ≠ p)
    (htable : ∀ d i t, OwnsEntry L live d i → tableAt s.mem d i = some t → t ≠ p) :
    MemInv L ⟨m', s.paddrAlloc⟩ live held ∧
      ∀ d i j, OwnsEntry L live d i → j < 1024 → pageAt m' d i j = pageAt s.mem d i j := by
  have htab : ∀ d i, OwnsEntry L live d i → tableAt m' d i = tableAt s.mem d i := fun d i ho =>
    tableAt_touched htouched (h.root_aligned ho.root) (hdir d ho.root) ho.1
  have hpage : ∀ d i j, OwnsEntry L live d i → j < 1024 → pageAt m' d i j = pageAt s.mem d i j :=
    fun d i j ho hj => pageAt_touched htouched (h.root_aligned ho.root) (hdir d ho.root) ho.1 hj
      fun t ht => htable d i t ho ht
  have hentry : ∀ d, Root L live d → ∀ i < 1024, entryAt m' d i = entryAt s.mem d i :=
    fun d hd i hi => entryAt_touched htouched (h.root_aligned hd) (hdir d hd) hi
  refine ⟨⟨h.shape, h.image, ?_, ?_, ?_, h.liveNodup, h.heldNodup⟩, hpage⟩
  · refine h.owned.mono ?_ fun _ hg => hg
    intro f r hu
    cases r with
    | dir d => exact hu
    | held p => exact hu
    | table d i => exact ⟨hu.1, (htab d i hu.1).symm.trans hu.2⟩
    | page d i j =>
      obtain ⟨hd, h₁, h₂, hj, v, hv, hf⟩ := hu
      exact ⟨hd, h₁, h₂, hj, v, (hpage d i j (ownsEntry_user hd h₁ h₂) hj).symm.trans hv, hf⟩
  · intro d hd i hi
    show entryAt m' d i = entryAt m' _ i
    rw [hentry d (Or.inr hd) i (by omega), hentry _ (Or.inl rfl) i (by omega)]
    exact h.shared d hd i hi
  · intro d hd i h₁ h₂
    show present (entryAt m' d i) = true → entryAt m' d i % 8 = _
    rw [hentry d (Or.inr hd) i h₂]
    exact h.userPde d hd i h₁ h₂

/-- A frame in use as a page is no directory and no table. -/
theorem MemInv.touch_page (h : MemInv L s live held) (htouched : TouchedOnly (· = p) s.mem m')
    (hp : Uses L s.mem live held p (.page d i j)) :
    MemInv L ⟨m', s.paddrAlloc⟩ live held ∧
      ∀ d i j, OwnsEntry L live d i → j < 1024 → pageAt m' d i j = pageAt s.mem d i j := by
  refine h.touch htouched ?_ ?_
  · rintro d' (rfl | hd') rfl
    · exact h.kernel_ne ((h.owned.taken hp).isFrame h.shape) rfl
    · have hrole := h.owned.unique (r := .dir d') ⟨hd', rfl⟩ hp
      cases hrole
  · rintro d' i' t ho ht rfl
    have hrole := h.owned.unique (r := .table d' i') ⟨ho, ht⟩ hp
    cases hrole

end StartKernel
