import StartKernel.Proofs.AddressSpace

/-!
# `StartKernel.Proofs.MapPage`: mapping a page keeps frames apart

* `MemInv.install`, `MemInv.storeEntry`, `MemInv.alloc`: the three changes that mapping a page
  consists of keep the invariant.
* `memoryCreateMap_step`: one turn of the loop of `memory_create_map` maps that page and
  changes no other (`Mapped`), or there is no frame for a table and nothing changes.
-/

set_option autoImplicit false

namespace StartKernel

open ByteMem (Mem store32)
open Ownership (Owned)

variable {L : Layout} {s : MemState} {live held : List Nat}
  {a' : AddrAlloc} {d d' f i i' j j' t t' v vaddr paddr perm : Nat}

/-- The directory is the kernel's or one of an address space. -/
def Root (L : Layout) (live : List Nat) (d : Nat) : Prop := d = L.kernelPageDir ∨ d ∈ live

theorem OwnsEntry.root (h : OwnsEntry L live d i) : Root L live d := h.2.imp id And.left

theorem ownsEntry_user (hd : d ∈ live) (h₁ : 512 ≤ i) (h₂ : i < 1024) : OwnsEntry L live d i :=
  ⟨h₂, Or.inr ⟨hd, h₁⟩⟩

theorem ownsEntry_kernel (hi : i < 1024) : OwnsEntry L live L.kernelPageDir i :=
  ⟨hi, Or.inl rfl⟩

/-! ### Which frames the invariant keeps apart -/

section Apart

variable (h : MemInv L s live held)

include h

/-- A frame that is not taken is not in use. -/
theorem MemInv.unused (hf : ¬ Taken s.paddrAlloc f) (r : Role) : ¬ Uses L s.mem live held f r :=
  fun hu => hf (h.owned.taken hu)

theorem MemInv.dir_isFrame (hd : d ∈ live) : IsFrame d :=
  (h.owned.taken (r := .dir d) ⟨hd, rfl⟩).isFrame h.shape

theorem MemInv.root_aligned (hd : Root L live d) : d % 4096 = 0 := by
  rcases hd with rfl | hd
  · exact L.aligned
  · exact (h.dir_isFrame hd).aligned

/-- The directory of the kernel lies below the managed range. -/
theorem MemInv.kernel_ne (hf : IsFrame f) : L.kernelPageDir ≠ f := by
  have himage := h.image
  have habove := hf.above
  unfold memExtStart at himage
  omega

theorem MemInv.table_taken (ho : OwnsEntry L live d i) (ht : tableAt s.mem d i = some t) :
    Taken s.paddrAlloc t :=
  h.owned.taken (r := .table d i) ⟨ho, ht⟩

theorem MemInv.table_isFrame (ho : OwnsEntry L live d i) (ht : tableAt s.mem d i = some t) :
    IsFrame t :=
  (h.table_taken ho ht).isFrame h.shape

/-- A directory is no table. -/
theorem MemInv.root_ne_table (hd : Root L live d) (ho : OwnsEntry L live d' i)
    (ht : tableAt s.mem d' i = some t) : d ≠ t := by
  intro he
  rcases hd with rfl | hd
  · exact h.kernel_ne (h.table_isFrame ho ht) he
  · have hrole := h.owned.unique (show Uses L s.mem live held t (.dir d) from ⟨hd, he.symm⟩)
      (show Uses L s.mem live held t (.table d' i) from ⟨ho, ht⟩)
    cases hrole

/-- A table belongs to one entry of one directory. -/
theorem MemInv.table_unique (ho : OwnsEntry L live d i) (ht : tableAt s.mem d i = some t)
    (ho' : OwnsEntry L live d' i') (ht' : tableAt s.mem d' i' = some t) : d' = d ∧ i' = i := by
  have hrole := h.owned.unique (show Uses L s.mem live held t (.table d' i') from ⟨ho', ht'⟩)
    (show Uses L s.mem live held t (.table d i) from ⟨ho, ht⟩)
  cases hrole
  exact ⟨rfl, rfl⟩

/-- A frame that is not taken is no directory. -/
theorem MemInv.root_ne_fresh (hd : Root L live d) (hf : ¬ Taken s.paddrAlloc f)
    (hframe : IsFrame f) : d ≠ f := by
  rintro rfl
  rcases hd with rfl | hd
  · exact h.kernel_ne hframe rfl
  · exact h.unused hf (.dir d) ⟨hd, rfl⟩

/-- A frame that is not taken is no table. -/
theorem MemInv.table_ne_fresh (ho : OwnsEntry L live d i) (ht : tableAt s.mem d i = some t)
    (hf : ¬ Taken s.paddrAlloc f) : t ≠ f := by
  rintro rfl
  exact hf (h.table_taken ho ht)

/-- The kernel half of a directory has the tables of the kernel. -/
theorem MemInv.tableAt_shared (hd : d ∈ live) (hi : i < 512) :
    tableAt s.mem d i = tableAt s.mem L.kernelPageDir i := by
  unfold tableAt
  rw [h.shared d hd i hi]

/-- Every table of a directory is a table of an entry that the directory or the kernel owns. -/
theorem MemInv.table_owner (hd : Root L live d) (hi : i < 1024)
    (ht : tableAt s.mem d i = some t) :
    ∃ d', OwnsEntry L live d' i ∧ tableAt s.mem d' i = some t ∧
      (d' = d ∨ (d' = L.kernelPageDir ∧ i < 512)) := by
  rcases hd with rfl | hd
  · exact ⟨L.kernelPageDir, ownsEntry_kernel hi, ht, Or.inl rfl⟩
  · by_cases hlow : i < 512
    · refine ⟨L.kernelPageDir, ownsEntry_kernel hi, ?_, Or.inr ⟨rfl, hlow⟩⟩
      rw [← h.tableAt_shared hd hlow]
      exact ht
    · exact ⟨d, ownsEntry_user hd (by omega) hi, ht, Or.inl rfl⟩

end Apart

/-! ### The three changes -/

/-- A frame is taken and not used yet. -/
theorem MemInv.alloc (h : MemInv L s live held) (ha : Allocated s.paddrAlloc f a') :
    MemInv L { s with paddrAlloc := a' } live held where
  shape := ha.shape
  image := h.image
  owned := h.owned.mono (fun _ _ hu => hu) fun g hg => (ha.taken g).mpr (Or.inl hg)
  shared := h.shared
  userPde := h.userPde
  liveNodup := h.liveNodup
  heldNodup := h.heldNodup

section Install

variable (h : MemInv L s live held) (ho : OwnsEntry L live d i)
  (ha : Allocated s.paddrAlloc t a')

include h ho ha

omit ho in
/-- Installing a table in `d` touches no other directory. -/
theorem MemInv.install_root (hd' : Root L live d') (hne : d' ≠ d) : ¬ (d' = d ∨ d' = t) := by
  rintro (hd | hd)
  · exact hne hd
  · exact h.root_ne_fresh hd' ha.fresh ha.frame hd

/-- Installing a table touches no table. -/
theorem MemInv.install_table (ho' : OwnsEntry L live d' i') (ht' : tableAt s.mem d' i' = some t') :
    ¬ (t' = d ∨ t' = t) := by
  rintro (ht | ht)
  · exact h.root_ne_table ho.root ho' ht' ht.symm
  · exact h.table_ne_fresh ho' ht' ha.fresh ht

/-- The frames in use after a table was installed. -/
theorem MemInv.uses_install (hnone : tableAt s.mem d i = none) {r : Role}
    (hu : Uses L (installTable s.mem d i t) live held f r) :
    Uses L s.mem live held f r ∨ (f = t ∧ r = .table d i) := by
  have hal := h.root_aligned ho.root
  have hne := h.root_ne_fresh ho.root ha.fresh ha.frame
  have htouched := touchedOnly_installTable ha.frame hal ho.1 s.mem
  cases r with
  | dir d' => exact Or.inl hu
  | held p => exact Or.inl hu
  | table d' i' =>
    obtain ⟨ho', ht'⟩ := hu
    by_cases hdd : d' = d
    · -- In this directory the new table is the only entry that has changed.
      subst hdd
      by_cases hii : i' = i
      · subst hii
        rw [tableAt_installTable ha.frame hal hne ho.1] at ht'
        exact Or.inr ⟨(Option.some.inj ht').symm, rfl⟩
      · rw [tableAt_installTable_other ha.frame hal hne s.mem ho'.1 hii] at ht'
        exact Or.inl ⟨ho', ht'⟩
    · rw [tableAt_touched htouched (h.root_aligned ho'.root)
        (h.install_root ha ho'.root hdd) ho'.1] at ht'
      exact Or.inl ⟨ho', ht'⟩
  | page d' i' j' =>
    obtain ⟨hd', h₁, h₂, hj', w, hw, hf⟩ := hu
    have ho' : OwnsEntry L live d' i' := ownsEntry_user hd' h₁ h₂
    refine Or.inl ⟨hd', h₁, h₂, hj', w, ?_, hf⟩
    by_cases hdd : d' = d
    · subst hdd
      rw [pageAt_installTable_other ha.frame hal hne ho.1 s.mem hnone h₂ hj'] at hw
      · exact hw
      · intro t' ht'
        exact not_or.mp (h.install_table ho ha ho' ht')
    · rw [pageAt_touched htouched (h.root_aligned ho'.root) (h.install_root ha ho'.root hdd)
        h₂ hj' fun t' ht' => h.install_table ho ha ho' ht'] at hw
      exact hw

/-- A frame is taken and becomes the table for an entry that has none. -/
theorem MemInv.install (hk : d = L.kernelPageDir → live = []) (hnone : tableAt s.mem d i = none) :
    MemInv L { mem := installTable s.mem d i t, paddrAlloc := a' } live held := by
  have hal := h.root_aligned ho.root
  have hne := h.root_ne_fresh ho.root ha.fresh ha.frame
  have htouched := touchedOnly_installTable ha.frame hal ho.1 s.mem
  refine ⟨ha.shape, h.image, ?_, ?_, ?_, h.liveNodup, h.heldNodup⟩
  · exact h.owned.insert _ (h.unused ha.fresh) (fun _ _ hu => h.uses_install ho ha hnone hu)
      (fun g hg => (ha.taken g).mpr (Or.inl hg)) ((ha.taken t).mpr (Or.inr rfl))
  · intro d' hd' i' hi'
    show entryAt (installTable s.mem d i t) d' i' = entryAt (installTable s.mem d i t) _ i'
    have hdk : d ≠ L.kernelPageDir := by
      intro hd
      rw [hk hd] at hd'
      cases hd'
    rw [entryAt_touched htouched L.aligned (h.install_root ha (Or.inl rfl) hdk.symm)
      (by omega)]
    by_cases hdd : d' = d
    · subst hdd
      -- The new table is in the user half, so the entries of the kernel half are the old ones.
      have hlow : 512 ≤ i := (ho.2.resolve_left hdk).2
      rw [entryAt_installTable ha.frame hal hne s.mem (by omega),
        entryAt_store_other s.mem _ (by omega)]
      exact h.shared d' hd' i' hi'
    · rw [entryAt_touched htouched (h.root_aligned (Or.inr hd'))
        (h.install_root ha (Or.inr hd') hdd) (by omega)]
      exact h.shared d' hd' i' hi'
  · intro d' hd' i' h₁ h₂ hp
    by_cases hdd : d' = d
    · subst hdd
      rw [entryAt_installTable ha.frame hal hne s.mem h₂] at hp ⊢
      by_cases hii : i' = i
      · subst hii
        rw [entryAt_store_same s.mem (pde_fields ha.frame).2.2]
        exact (pde_perm ha.frame)
      · rw [entryAt_store_other s.mem _ hii] at hp ⊢
        exact h.userPde d' hd' i' h₁ h₂ hp
    · rw [entryAt_touched htouched (h.root_aligned (Or.inr hd'))
        (h.install_root ha (Or.inr hd') hdd) h₂] at hp ⊢
      exact h.userPde d' hd' i' h₁ h₂ hp

end Install

section Store

variable (h : MemInv L s live held) (ho : OwnsEntry L live d i)
  (ht : tableAt s.mem d i = some t) (hj : j < 1024) (hv : v < 2 ^ 32) (hp : present v = true)

include h ho ht hj

/-- A store into a table does not change the tables of any directory. -/
theorem MemInv.tableAt_storeEntry (ho' : OwnsEntry L live d' i') :
    tableAt (store32 s.mem (t + 4 * j) v) d' i' = tableAt s.mem d' i' :=
  tableAt_touched (touchedOnly_store s.mem v (tableAt_aligned ht) hj) (h.root_aligned ho'.root)
    (h.root_ne_table ho'.root ho ht) ho'.1

/-- A store into a table changes one page of one directory. -/
theorem MemInv.pageAt_storeEntry (ho' : OwnsEntry L live d' i') (hj' : j' < 1024)
    (hne : ¬ (d' = d ∧ i' = i ∧ j' = j)) :
    pageAt (store32 s.mem (t + 4 * j) v) d' i' j' = pageAt s.mem d' i' j' := by
  have hd' := h.root_aligned ho'.root
  have hne' := h.root_ne_table ho'.root ho ht
  by_cases hdd : d' = d
  · subst hdd
    refine pageAt_store_other s.mem v hd' ht hne' hj ho'.1 hj' ?_ fun hii hjj =>
      hne ⟨rfl, hii, hjj⟩
    rintro t' ht' hii rfl
    exact hii (h.table_unique ho ht ho' ht').2
  · refine pageAt_touched (touchedOnly_store s.mem v (tableAt_aligned ht) hj) hd' hne' ho'.1
      hj' ?_
    rintro t' ht' rfl
    exact hdd (h.table_unique ho ht ho' ht').1

include hv hp

/-- The frames in use after an entry was stored. -/
theorem MemInv.uses_storeEntry {r : Role}
    (hu : Uses L (store32 s.mem (t + 4 * j) v) live held f r) :
    Uses L s.mem live held f r ∨ (d ∈ live ∧ f = ptePaddr v ∧ r = .page d i j) := by
  cases r with
  | dir d' => exact Or.inl hu
  | held p => exact Or.inl hu
  | table d' i' =>
    exact Or.inl ⟨hu.1, (h.tableAt_storeEntry ho ht hj hu.1).symm.trans hu.2⟩
  | page d' i' j' =>
    obtain ⟨hd', h₁, h₂, hj', w, hw, hf⟩ := hu
    have ho' : OwnsEntry L live d' i' := ownsEntry_user hd' h₁ h₂
    by_cases hsame : d' = d ∧ i' = i ∧ j' = j
    · obtain ⟨rfl, rfl, rfl⟩ := hsame
      rw [pageAt_store s.mem hv hp (h.root_aligned ho.root) ht (h.root_ne_table ho.root ho ht)
        hj ho.1] at hw
      obtain rfl := Option.some.inj hw
      exact Or.inr ⟨hd', hf.symm, rfl⟩
    · rw [h.pageAt_storeEntry ho ht hj ho' hj' hsame] at hw
      exact Or.inl ⟨hd', h₁, h₂, hj', w, hw, hf⟩

/-- An entry is stored into a table. In an address space it has to point to a frame that is
taken and not used yet. -/
theorem MemInv.storeEntry
    (hnew : d ∈ live → Taken s.paddrAlloc (ptePaddr v) ∧
      ∀ r, ¬ Uses L s.mem live held (ptePaddr v) r) :
    MemInv L (s.store (t + 4 * j) v) live held := by
  have htouched := touchedOnly_store s.mem v (tableAt_aligned ht) hj
  have huses := fun {f : Nat} {r : Role} => h.uses_storeEntry (f := f) (r := r) ho ht hj hv hp
  have hentry : ∀ d', Root L live d' → ∀ i' < 1024,
      entryAt (store32 s.mem (t + 4 * j) v) d' i' = entryAt s.mem d' i' := fun d' hd' i' hi' =>
    entryAt_touched htouched (h.root_aligned hd') (h.root_ne_table hd' ho ht) hi'
  refine ⟨h.shape, h.image, ?_, ?_, ?_, h.liveNodup, h.heldNodup⟩
  · -- An entry of the kernel's directory is no use of a frame.
    by_cases hd : d ∈ live
    · exact h.owned.insert _ (hnew hd).2 (fun _ _ hu => (huses hu).imp id And.right)
        (fun _ hg => hg) (hnew hd).1
    · exact h.owned.mono (fun _ _ hu => (huses hu).resolve_right fun hnew => hd hnew.1)
        fun _ hg => hg
  · intro d' hd' i' hi'
    show entryAt (store32 s.mem (t + 4 * j) v) d' i' = entryAt (store32 s.mem (t + 4 * j) v) _ i'
    rw [hentry d' (Or.inr hd') i' (by omega), hentry _ (Or.inl rfl) i' (by omega)]
    exact h.shared d' hd' i' hi'
  · intro d' hd' i' h₁ h₂
    show present (entryAt (store32 s.mem (t + 4 * j) v) d' i') = true →
      entryAt (store32 s.mem (t + 4 * j) v) d' i' % 8 = _
    rw [hentry d' (Or.inr hd') i' h₂]
    exact h.userPde d' hd' i' h₁ h₂

end Store

/-! ### One page -/

/-- The state `s'` after the page of `vaddr` was mapped in the directory `d` with the entry
`v`. A table may have been installed for it. -/
structure Mapped (s : MemState) (d vaddr v : Nat) (s' : MemState) : Prop where
  touched : TouchedOnly (fun g => g = d ∨ tableAt s'.mem d (pdeIndex vaddr) = some g) s.mem s'.mem
  page : walk s'.mem d vaddr = some v
  others : ∀ i < 1024, ∀ j < 1024, ¬ (i = pdeIndex vaddr ∧ j = pteIndex vaddr) →
    pageAt s'.mem d i j = pageAt s.mem d i j
  tables : ∀ i < 1024, i ≠ pdeIndex vaddr → tableAt s'.mem d i = tableAt s.mem d i
  keeps : ∀ t, tableAt s.mem d (pdeIndex vaddr) = some t →
    tableAt s'.mem d (pdeIndex vaddr) = some t
  taken : ∀ g, Taken s'.paddrAlloc g ↔
    Taken s.paddrAlloc g ∨ tableAt s'.mem d (pdeIndex vaddr) = some g
  count : freeCount s.paddrAlloc = freeCount s'.paddrAlloc +
    if tableAt s.mem d (pdeIndex vaddr) = none then 1 else 0

theorem pteIndex_lt (vaddr : Nat) : pteIndex vaddr < 1024 := by
  unfold pteIndex
  omega

/-- The entry for a page address fits in a word. -/
theorem entry_lt (hf : paddr % 4096 = 0) (hlt : paddr < 2 ^ 32) (hp : perm < 4096) :
    paddr ||| perm ||| pteP < 2 ^ 32 := by
  have hperm := or_pteP_lt hp
  rw [Nat.or_assoc, or_perm hf hperm]
  omega

/-- Where a table exists, `memory_create_map` stores the entry. -/
theorem MemInv.mapped_store (h : MemInv L s live held) (ho : OwnsEntry L live d (pdeIndex vaddr))
    (ht : tableAt s.mem d (pdeIndex vaddr) = some t) (hv : v < 2 ^ 32) (hp : present v = true) :
    Mapped s d vaddr v (s.store (t + 4 * pteIndex vaddr) v) := by
  have hj := pteIndex_lt vaddr
  have hal := h.root_aligned ho.root
  have hne := h.root_ne_table ho.root ho ht
  have htable : ∀ i < 1024, tableAt (store32 s.mem (t + 4 * pteIndex vaddr) v) d i
      = tableAt s.mem d i := fun i hi => tableAt_store s.mem v hal (tableAt_aligned ht) hne hj hi
  have hkeep := (htable _ ho.1).trans ht
  refine ⟨?_, pageAt_store s.mem hv hp hal ht hne hj ho.1, ?_, fun i hi _ => htable i hi, ?_, ?_,
    ?_⟩
  · refine (touchedOnly_store s.mem v (tableAt_aligned ht) hj).mono fun x hx => Or.inr ?_
    exact hkeep.trans (congrArg some hx.symm)
  · intro i' hi' j' hj' hij
    refine pageAt_store_other s.mem v hal ht hne hj hi' hj' ?_ fun hii hjj => hij ⟨hii, hjj⟩
    -- A table is at one index only.
    rintro t' ht' hii rfl
    obtain ⟨d₁, ho₁, ht₁, -⟩ := h.table_owner ho.root hi' ht'
    exact hii (h.table_unique ho ht ho₁ ht₁).2
  · intro t' ht'
    exact (htable _ ho.1).trans ht'
  · intro g
    refine ⟨Or.inl, fun hg => hg.elim id fun hg => ?_⟩
    obtain rfl : t = g := Option.some.inj (hkeep.symm.trans hg)
    exact h.table_taken ho ht
  · rw [if_neg (by simp [ht])]
    rfl

/-- The frame for the entry of an address space: taken and not used. -/
def Fresh (L : Layout) (s : MemState) (live held : List Nat) (f : Nat) : Prop :=
  Taken s.paddrAlloc f ∧ ∀ r, ¬ Uses L s.mem live held f r

/-- Where a table is missing, it is installed and then the entry is stored. -/
theorem MemInv.mapped_install (h : MemInv L s live held)
    (ho : OwnsEntry L live d (pdeIndex vaddr)) (hk : d = L.kernelPageDir → live = [])
    (hnone : tableAt s.mem d (pdeIndex vaddr) = none) (ha : Allocated s.paddrAlloc t a')
    (hv : v < 2 ^ 32) (hp : present v = true) {s₁ : MemState}
    (hs₁ : s₁ = { mem := installTable s.mem d (pdeIndex vaddr) t, paddrAlloc := a' }) :
    Mapped s d vaddr v (s₁.store (t + 4 * pteIndex vaddr) v) := by
  have hal := h.root_aligned ho.root
  have hne := h.root_ne_fresh ho.root ha.fresh ha.frame
  have hinv : MemInv L s₁ live held := hs₁ ▸ h.install ho ha hk hnone
  have hmem : s₁.mem = installTable s.mem d (pdeIndex vaddr) t := by rw [hs₁]
  have halloc : s₁.paddrAlloc = a' := by rw [hs₁]
  have ht : tableAt s₁.mem d (pdeIndex vaddr) = some t := by
    rw [hmem]
    exact tableAt_installTable ha.frame hal hne ho.1 s.mem
  -- The store into the new table, with what the installation has changed in front of it.
  have hstore := hinv.mapped_store ho ht hv hp
  have hkeep := hstore.keeps t ht
  refine ⟨?_, hstore.page, ?_, ?_, ?_, ?_, ?_⟩
  · have htouched := touchedOnly_installTable ha.frame hal ho.1 s.mem
    rw [← hmem] at htouched
    refine (htouched.mono fun x hx => ?_).trans hstore.touched
    rcases hx with hx | hx
    · exact Or.inl hx
    · exact Or.inr (hkeep.trans (congrArg some hx.symm))
  · intro i' hi' j' hj' hij
    rw [hstore.others i' hi' j' hj' hij, hmem]
    refine pageAt_installTable_other ha.frame hal hne ho.1 s.mem hnone hi' hj' fun t' ht' => ?_
    obtain ⟨d₁, ho₁, ht₁, -⟩ := h.table_owner ho.root hi' ht'
    exact not_or.mp (h.install_table ho ha ho₁ ht₁)
  · intro i' hi' hii
    rw [hstore.tables i' hi' hii, hmem]
    exact tableAt_installTable_other ha.frame hal hne s.mem hi' hii
  · intro t' ht'
    rw [hnone] at ht'
    cases ht'
  · intro g
    rw [hstore.taken g, halloc, ha.taken g, hkeep, Option.some.injEq]
    constructor
    · rintro ((hg | hg) | hg)
      · exact Or.inl hg
      · exact Or.inr hg.symm
      · exact Or.inr hg
    · rintro (hg | hg)
      · exact Or.inl (Or.inl hg)
      · exact Or.inr hg
  · have hcount := hstore.count
    rw [if_neg (by simp [ht]), halloc] at hcount
    rw [if_pos hnone, ha.count, hcount]

/-- One step of the loop of `memory_create_map`: the page is mapped, or there is no frame for
its table. -/
theorem memoryCreateMap_step (h : MemInv L s live held)
    (ho : OwnsEntry L live d (pdeIndex vaddr)) (hk : d = L.kernelPageDir → live = [])
    (hnone : walk s.mem d vaddr = none) (hal : paddr % 4096 = 0) (hlt : paddr < 2 ^ 32)
    (hperm : perm < 4096) (hnew : d ∈ live → Fresh L s live held paddr) :
    (∃ s', Mapped s d vaddr (paddr ||| perm ||| pteP) s' ∧ MemInv L s' live held ∧
      ∀ n, memoryCreateMap s d vaddr paddr (n + 1) perm =
        memoryCreateMap s' d (toU32 (vaddr + memPageSize)) (toU32 (paddr + memPageSize)) n perm) ∨
    (tableAt s.mem d (pdeIndex vaddr) = none ∧ freeCount s.paddrAlloc = 0 ∧
      ∀ n, memoryCreateMap s d vaddr paddr (n + 1) perm = some (-1, s)) := by
  have hj := pteIndex_lt vaddr
  have hv := entry_lt hal hlt hperm
  obtain ⟨hp, haddr, -⟩ := entry_fields hal hperm
  -- The table of the page, present or new, is a frame of the managed range.
  have hpos : ∀ {t : Nat}, IsFrame t → t + 4 * pteIndex vaddr ≠ 0 := fun ht => by
    have := ht.above
    omega
  rcases findPte_cases (d := d) (v := vaddr) h.shape with
    ⟨t, ht, he⟩ | ⟨t, a', ht, ha, he⟩ | ⟨ht, hfree, he⟩
  · left
    have hentry := not_present_of_walk hnone ht
    have hnew' : d ∈ live → Fresh L s live held (ptePaddr (paddr ||| perm ||| pteP)) := by
      rw [haddr]
      exact hnew
    refine ⟨_, h.mapped_store ho ht hv hp, h.storeEntry ho ht hj hv hp hnew', fun n => ?_⟩
    show memoryCreateMap s d vaddr paddr (n + 1) perm = _
    unfold entryAt at hentry
    rw [memoryCreateMap]
    simp only [he, if_neg (hpos (h.table_isFrame ho ht)), hentry, Bool.false_eq_true, if_false]
  · left
    have hne := h.root_ne_fresh ho.root ha.fresh ha.frame
    have hinst := h.install ho ha hk ht
    have hpage : tableAt (installTable s.mem d (pdeIndex vaddr) t) d (pdeIndex vaddr) = some t :=
      tableAt_installTable ha.frame (h.root_aligned ho.root) hne ho.1 s.mem
    have hnew' : d ∈ live → Fresh L
        { mem := installTable s.mem d (pdeIndex vaddr) t, paddrAlloc := a' } live held
        (ptePaddr (paddr ||| perm ||| pteP)) := by
      rw [haddr]
      intro hd
      obtain ⟨htaken, hunused⟩ := hnew hd
      refine ⟨(ha.taken paddr).mpr (Or.inl htaken), fun r hu => ?_⟩
      rcases h.uses_install ho ha ht hu with hold | ⟨rfl, -⟩
      · exact hunused r hold
      · exact ha.fresh htaken
    refine ⟨_, h.mapped_install ho hk ht ha hv hp rfl,
      hinst.storeEntry ho hpage hj hv hp hnew', fun n => ?_⟩
    have hzero : present (entryAt (installTable s.mem d (pdeIndex vaddr) t) t (pteIndex vaddr))
        = false := by
      rw [entryAt_installTable_zero ha.frame s.mem hj]
      rfl
    unfold entryAt at hzero
    rw [memoryCreateMap]
    simp only [he, if_neg (hpos ha.frame), hzero, Bool.false_eq_true, if_false]
  · right
    refine ⟨ht, hfree, fun n => ?_⟩
    rw [memoryCreateMap]
    simp only [he, if_true]

/-- Mapping a page that is mapped already stops the kernel. -/
theorem memoryCreateMap_mapped (h : MemInv L s live held) (ho : OwnsEntry L live d (pdeIndex vaddr))
    (hw : walk s.mem d vaddr = some v) (n : Nat) :
    memoryCreateMap s d vaddr paddr (n + 1) perm = none := by
  obtain ⟨t, ht, he, hp⟩ := pageAt_eq_some hw
  have hpos : t + 4 * pteIndex vaddr ≠ 0 := by
    have := (h.table_isFrame ho ht).above
    omega
  rcases findPte_cases (d := d) (v := vaddr) h.shape with
    ⟨t', ht', hpte⟩ | ⟨_, _, hnone, -, -⟩ | ⟨hnone, -, -⟩
  · obtain rfl : t = t' := Option.some.inj (ht.symm.trans ht')
    unfold entryAt at he
    rw [memoryCreateMap]
    simp only [hpte, hpos, he, hp, if_false, if_true]
  · rw [ht] at hnone
    cases hnone
  · rw [ht] at hnone
    cases hnone

end StartKernel
