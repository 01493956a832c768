import StartKernel.Proofs.AllocForPageDir
import StartKernel.Proofs.MemoryInit
import StartKernel.Proofs.Uvm

/-!
# `StartKernel.Proofs.CreateMap`: what `memory_create_map` changes

The invariant `MemInv` keeps the kernel half of all directories the same, and mapping a page in
the kernel half of one directory can break that. The theorem of this module is about every
directory and every address, so it rests on `TablesApart`, which asks less: a table is a taken
frame, it is no directory, and it is a table for one index only. Two directories may share it.

* `PageSet.of_table`, `PageSet.of_new_table`: what mapping one page changes, in every directory.
* `memoryCreateMap_range`: the same for a range, by induction on its pages.
* `memoryCreateMap_exact`: a range of unmapped pages is mapped, in this directory and in those
  that share the page table, and no other translation changes.
-/

set_option autoImplicit false

namespace StartKernel

open ByteMem (Mem load32 store32)

variable {L : Layout} {s s' s₁ : MemState} {live held : List Nat} {a' : AddrAlloc} {m : Mem}
  {d d' f i i' j j' k n t v w vaddr paddr perm : Nat}

/-- The tables of the directories are taken frames, no directories, and for one index each. -/
structure TablesApart (L : Layout) (live : List Nat) (s : MemState) : Prop where
  shape : PallocShape s.paddrAlloc
  aligned : ∀ d, Root L live d → d % 4096 = 0
  fresh : ∀ d f, Root L live d → IsFrame f → ¬ Taken s.paddrAlloc f → d ≠ f
  taken : ∀ d i t, Root L live d → i < 1024 → tableAt s.mem d i = some t → Taken s.paddrAlloc t
  root : ∀ d d' i t, Root L live d → Root L live d' → i < 1024 → tableAt s.mem d i = some t →
    d' ≠ t
  index : ∀ d d' i i' t, Root L live d → Root L live d' → i < 1024 → i' < 1024 →
    tableAt s.mem d i = some t → tableAt s.mem d' i' = some t → i' = i

/-- Frame ownership keeps tables apart. -/
theorem MemInv.tablesApart (h : MemInv L s live held) : TablesApart L live s where
  shape := h.shape
  aligned _ hd := h.root_aligned hd
  fresh _ _ hd hf hfree := h.root_ne_fresh hd hfree hf
  taken d i t hd hi ht := by
    obtain ⟨d₁, ho, ht₁, -⟩ := h.table_owner hd hi ht
    exact h.table_taken ho ht₁
  root d d' i t hd hd' hi ht := by
    obtain ⟨d₁, ho, ht₁, -⟩ := h.table_owner hd hi ht
    exact h.root_ne_table hd' ho ht₁
  index d d' i i' t hd hd' hi hi' ht ht' := by
    obtain ⟨d₁, ho₁, ht₁, -⟩ := h.table_owner hd hi ht
    obtain ⟨d₂, ho₂, ht₂, -⟩ := h.table_owner hd' hi' ht'
    exact (h.table_unique ho₁ ht₁ ho₂ ht₂).2

/-- The directory `d'` is `d`, or it has the same table for the index `i`. -/
def Shares (m : Mem) (d d' i : Nat) : Prop :=
  d' = d ∨ ∃ t, tableAt m d i = some t ∧ tableAt m d' i = some t

/-! ### One page -/

/-- The page of `vaddr` has the entry `v` now, in the directory `d` and in those that share its
table. No other page of any directory has changed. -/
structure PageSet (L : Layout) (live : List Nat) (s : MemState) (d vaddr v : Nat)
    (s' : MemState) : Prop where
  apart : TablesApart L live s'
  page : ∀ d', Root L live d' → Shares s.mem d d' (pdeIndex vaddr) →
    walk s'.mem d' vaddr = some v
  others : ∀ d', Root L live d' → ∀ i < 1024, ∀ j < 1024,
    ¬ (i = pdeIndex vaddr ∧ j = pteIndex vaddr ∧ Shares s.mem d d' i) →
    pageAt s'.mem d' i j = pageAt s.mem d' i j
  shares : ∀ d', Root L live d' → ∀ i < 1024, Shares s'.mem d d' i ↔ Shares s.mem d d' i
  tables : ∀ i < 1024, i ≠ pdeIndex vaddr → tableAt s'.mem d i = tableAt s.mem d i
  table : tableAt s'.mem d (pdeIndex vaddr) ≠ none
  fresh : ∀ t, tableAt s'.mem d (pdeIndex vaddr) = some t →
    tableAt s.mem d (pdeIndex vaddr) = some t ∨ ¬ Taken s.paddrAlloc t
  count : freeCount s.paddrAlloc = freeCount s'.paddrAlloc +
    if tableAt s.mem d (pdeIndex vaddr) = none then 1 else 0

section Page

variable (h : TablesApart L live s) (hd : Root L live d) (hi : pdeIndex vaddr < 1024)

include h hd hi

/-- Where there is a table, the entry is stored. -/
theorem PageSet.of_table (ht : tableAt s.mem d (pdeIndex vaddr) = some t) (hv : v < 2 ^ 32)
    (hp : present v = true) :
    PageSet L live s d vaddr v (s.store (t + 4 * pteIndex vaddr) v) := by
  have hj := pteIndex_lt vaddr
  have htouched := touchedOnly_store s.mem v (tableAt_aligned ht) hj
  have hne : ∀ d', Root L live d' → d' ≠ t := fun d' hd' => h.root d d' _ t hd hd' hi ht
  -- The entries of the directories are not in the table, so they stay.
  have htab : ∀ d', Root L live d' → ∀ i < 1024,
      tableAt (store32 s.mem (t + 4 * pteIndex vaddr) v) d' i = tableAt s.mem d' i :=
    fun d' hd' i hi' => tableAt_touched htouched (h.aligned d' hd') (hne d' hd') hi'
  have hapart : TablesApart L live (s.store (t + 4 * pteIndex vaddr) v) := by
    refine ⟨h.shape, h.aligned, h.fresh, ?_, ?_, ?_⟩
    · intro d₁ i₁ t₁ h₁ hi₁ ht₁
      exact h.taken d₁ i₁ t₁ h₁ hi₁ ((htab d₁ h₁ i₁ hi₁).symm.trans ht₁)
    · intro d₁ d₂ i₁ t₁ h₁ h₂ hi₁ ht₁
      exact h.root d₁ d₂ i₁ t₁ h₁ h₂ hi₁ ((htab d₁ h₁ i₁ hi₁).symm.trans ht₁)
    · intro d₁ d₂ i₁ i₂ t₁ h₁ h₂ hi₁ hi₂ ht₁ ht₂
      exact h.index d₁ d₂ i₁ i₂ t₁ h₁ h₂ hi₁ hi₂ ((htab d₁ h₁ i₁ hi₁).symm.trans ht₁)
        ((htab d₂ h₂ i₂ hi₂).symm.trans ht₂)
  have hshared : ∀ d', Shares s.mem d d' (pdeIndex vaddr) →
      tableAt s.mem d' (pdeIndex vaddr) = some t := by
    intro d' hs
    rcases hs with rfl | ⟨t', ht', hdt'⟩
    · exact ht
    · obtain rfl : t = t' := Option.some.inj (ht.symm.trans ht')
      exact hdt'
  refine ⟨hapart, ?_, ?_, ?_, ?_, ?_, ?_, ?_⟩
  · intro d' hd' hs
    exact pageAt_store s.mem hv hp (h.aligned d' hd') (hshared d' hs) (hne d' hd') hj hi
  · intro d' hd' i' hi' j' hj' hother
    show pageAt (store32 s.mem (t + 4 * pteIndex vaddr) v) d' i' j' = _
    by_cases hs : tableAt s.mem d' (pdeIndex vaddr) = some t
    · refine pageAt_store_other s.mem v (h.aligned d' hd') hs (hne d' hd') hj hi' hj' ?_ ?_
      · intro t' ht' hii he
        exact hii (h.index d d' _ i' t hd hd' hi hi' ht (he ▸ ht'))
      · intro hii hjj
        exact hother ⟨hii, hjj, Or.inr ⟨t, hii ▸ ht, hii ▸ hs⟩⟩
    · refine pageAt_touched htouched (h.aligned d' hd') (hne d' hd') hi' hj' ?_
      intro t' ht' he
      have hii : i' = pdeIndex vaddr := h.index d d' _ i' t hd hd' hi hi' ht (he ▸ ht')
      subst hii
      exact hs (he ▸ ht')
  · intro d' hd' i' hi'
    show Shares (store32 s.mem (t + 4 * pteIndex vaddr) v) d d' i' ↔ _
    unfold Shares
    rw [htab d hd i' hi', htab d' hd' i' hi']
  · intro i' hi' _
    exact htab d hd i' hi'
  · show tableAt (store32 s.mem (t + 4 * pteIndex vaddr) v) d (pdeIndex vaddr) ≠ none
    rw [htab d hd _ hi, ht]
    simp
  · intro t' ht'
    exact Or.inl ((htab d hd _ hi).symm.trans ht')
  · rw [if_neg (by simp [ht])]
    rfl

/-- Where there is no table, a free frame becomes one, for this directory only. -/
theorem TablesApart.install (hnone : tableAt s.mem d (pdeIndex vaddr) = none)
    (ha : Allocated s.paddrAlloc t a')
    (hs₁ : s₁ = { mem := installTable s.mem d (pdeIndex vaddr) t, paddrAlloc := a' }) :
    TablesApart L live s₁ ∧ tableAt s₁.mem d (pdeIndex vaddr) = some t ∧
      (∀ d', Root L live d' → ∀ i < 1024, ¬ (d' = d ∧ i = pdeIndex vaddr) →
        tableAt s₁.mem d' i = tableAt s.mem d' i) ∧
      ∀ d', Root L live d' → ∀ i < 1024, ∀ j < 1024,
        pageAt s₁.mem d' i j = pageAt s.mem d' i j := by
  have hal := h.aligned d hd
  have hne : ∀ d', Root L live d' → d' ≠ t := fun d' hd' => h.fresh d' t hd' ha.frame ha.fresh
  have htouched := touchedOnly_installTable ha.frame hal hi s.mem
  have hmem : s₁.mem = installTable s.mem d (pdeIndex vaddr) t := by rw [hs₁]
  have halloc : s₁.paddrAlloc = a' := by rw [hs₁]
  have ht : tableAt s₁.mem d (pdeIndex vaddr) = some t := by
    rw [hmem]
    exact tableAt_installTable ha.frame hal (hne d hd) hi s.mem
  -- An old table is neither the directory nor the new table.
  have hold : ∀ d', Root L live d' → ∀ i < 1024, ∀ t', tableAt s.mem d' i = some t' →
      t' ≠ d ∧ t' ≠ t := by
    intro d' hd' i' hi' t' ht'
    refine ⟨fun he => h.root d' d i' t' hd' hd hi' ht' he.symm, fun he => ?_⟩
    exact ha.fresh (he ▸ h.taken d' i' t' hd' hi' ht')
  have htab : ∀ d', Root L live d' → ∀ i < 1024, ¬ (d' = d ∧ i = pdeIndex vaddr) →
      tableAt s₁.mem d' i = tableAt s.mem d' i := by
    intro d' hd' i' hi' hnot
    rw [hmem]
    by_cases hdd : d' = d
    · subst hdd
      exact tableAt_installTable_other ha.frame hal (hne d' hd) s.mem hi' fun hii =>
        hnot ⟨rfl, hii⟩
    · exact tableAt_touched htouched (h.aligned d' hd') (by simp [hdd, hne d' hd']) hi'
  -- A table of the new state is an old one, or the new one in its place.
  have hcases : ∀ d', Root L live d' → ∀ i < 1024, ∀ t', tableAt s₁.mem d' i = some t' →
      tableAt s.mem d' i = some t' ∨ (d' = d ∧ i = pdeIndex vaddr ∧ t' = t) := by
    intro d' hd' i' hi' t' ht'
    by_cases hnot : d' = d ∧ i' = pdeIndex vaddr
    · obtain ⟨rfl, rfl⟩ := hnot
      exact Or.inr ⟨rfl, rfl, Option.some.inj (ht'.symm.trans ht)⟩
    · exact Or.inl ((htab d' hd' i' hi' hnot).symm.trans ht')
  refine ⟨⟨?_, h.aligned, ?_, ?_, ?_, ?_⟩, ht, htab, ?_⟩
  · rw [halloc]
    exact ha.shape
  · intro d' f hd' hf hfree
    refine h.fresh d' f hd' hf fun htaken => hfree ?_
    rw [halloc]
    exact (ha.taken f).mpr (Or.inl htaken)
  · intro d' i' t' hd' hi' ht'
    rw [halloc]
    rcases hcases d' hd' i' hi' t' ht' with hold' | ⟨-, -, rfl⟩
    · exact (ha.taken t').mpr (Or.inl (h.taken d' i' t' hd' hi' hold'))
    · exact (ha.taken t').mpr (Or.inr rfl)
  · intro d₁ d₂ i' t' h₁ h₂ hi' ht'
    rcases hcases d₁ h₁ i' hi' t' ht' with hold' | ⟨-, -, rfl⟩
    · exact h.root d₁ d₂ i' t' h₁ h₂ hi' hold'
    · exact hne d₂ h₂
  · intro d₁ d₂ i₁ i₂ t' h₁ h₂ hi₁ hi₂ ht₁ ht₂
    rcases hcases d₁ h₁ i₁ hi₁ t' ht₁ with hold₁ | ⟨rfl, rfl, rfl⟩
    · rcases hcases d₂ h₂ i₂ hi₂ t' ht₂ with hold₂ | ⟨-, -, rfl⟩
      · exact h.index d₁ d₂ i₁ i₂ t' h₁ h₂ hi₁ hi₂ hold₁ hold₂
      · exact absurd rfl (hold d₁ h₁ i₁ hi₁ _ hold₁).2
    · rcases hcases d₂ h₂ i₂ hi₂ t' ht₂ with hold₂ | ⟨-, rfl, -⟩
      · exact absurd rfl (hold d₂ h₂ i₂ hi₂ _ hold₂).2
      · rfl
  · intro d' hd' i' hi' j' hj'
    rw [hmem]
    by_cases hdd : d' = d
    · subst hdd
      exact pageAt_installTable_other ha.frame hal (hne d' hd) hi s.mem hnone hi' hj'
        (hold d' hd' i' hi')
    · exact pageAt_touched htouched (h.aligned d' hd') (by simp [hdd, hne d' hd']) hi' hj'
        fun t' ht' => not_or.mpr (hold d' hd' i' hi' t' ht')

/-- Where there is no table, one is made and then the entry is stored. -/
theorem PageSet.of_new_table (hnone : tableAt s.mem d (pdeIndex vaddr) = none)
    (ha : Allocated s.paddrAlloc t a') (hv : v < 2 ^ 32) (hp : present v = true)
    (hs₁ : s₁ = { mem := installTable s.mem d (pdeIndex vaddr) t, paddrAlloc := a' }) :
    PageSet L live s d vaddr v (s₁.store (t + 4 * pteIndex vaddr) v) := by
  obtain ⟨hapart, ht, htab, hpages⟩ := h.install hd hi hnone ha hs₁
  have hset := PageSet.of_table hapart hd hi ht hv hp
  -- The new table is shared with nobody, as the missing one was not.
  have hshares : ∀ d', Root L live d' → ∀ i < 1024,
      (Shares s₁.mem d d' i ↔ Shares s.mem d d' i) := by
    intro d' hd' i' hi'
    unfold Shares
    by_cases hdd : d' = d
    · simp [hdd]
    · rw [htab d' hd' i' hi' fun hnot => hdd hnot.1]
      by_cases hii : i' = pdeIndex vaddr
      · subst hii
        have hnew : tableAt s.mem d' (pdeIndex vaddr) ≠ some t := fun he =>
          ha.fresh (h.taken d' _ t hd' hi' he)
        simp [hdd, ht, hnone, hnew]
      · rw [htab d hd i' hi' fun hnot => hii hnot.2]
  refine ⟨hset.apart, ?_, ?_, ?_, ?_, hset.table, ?_, ?_⟩
  · intro d' hd' hs
    exact hset.page d' hd' ((hshares d' hd' _ hi).mpr hs)
  · intro d' hd' i' hi' j' hj' hother
    rw [hset.others d' hd' i' hi' j' hj' ?_, hpages d' hd' i' hi' j' hj']
    intro ⟨hii, hjj, hs⟩
    exact hother ⟨hii, hjj, (hshares d' hd' i' hi').mp hs⟩
  · intro d' hd' i' hi'
    exact (hset.shares d' hd' i' hi').trans (hshares d' hd' i' hi')
  · intro i' hi' hii
    rw [hset.tables i' hi' hii, htab d hd i' hi' fun hnot => hii hnot.2]
  · intro t' ht'
    right
    -- Another store does not change the table, so it is still the new one.
    rcases hset.fresh t' ht' with hold | hnew
    · obtain rfl : t = t' := Option.some.inj (ht.symm.trans hold)
      exact ha.fresh
    · refine fun htaken => hnew ?_
      rw [hs₁]
      exact (ha.taken t').mpr (Or.inl htaken)
  · have hcount := hset.count
    rw [if_neg (by simp [ht])] at hcount
    rw [if_pos hnone, ha.count]
    have halloc : s₁.paddrAlloc = a' := by rw [hs₁]
    rw [halloc] at hcount
    omega

end Page

/-- One turn of the loop of `memory_create_map` at an unmapped page, with a free frame when the
table is missing. -/
theorem TablesApart.mapPage (h : TablesApart L live s) (hd : Root L live d)
    (hi : pdeIndex vaddr < 1024) (hnone : walk s.mem d vaddr = none) (hal : paddr % 4096 = 0)
    (hlt : paddr < 2 ^ 32) (hperm : perm < 4096)
    (hroom : tableAt s.mem d (pdeIndex vaddr) = none → 0 < freeCount s.paddrAlloc) :
    ∃ s', PageSet L live s d vaddr (paddr ||| perm ||| pteP) s' ∧
      ∀ n, memoryCreateMap s d vaddr paddr (n + 1) perm =
        memoryCreateMap s' d (toU32 (vaddr + memPageSize)) (toU32 (paddr + memPageSize)) n
          perm := by
  have hv := entry_lt hal hlt hperm
  have hp := (entry_fields hal hperm).1
  -- The table of the page, present or new, is a frame, so the entry is not at address 0.
  have hpos : ∀ {t : Nat}, IsFrame t → t + 4 * pteIndex vaddr ≠ 0 := by
    intro t ht
    have habove := ht.above
    omega
  rcases findPte_cases (d := d) (v := vaddr) h.shape with
    ⟨t, ht, he⟩ | ⟨t, a', ht, ha, he⟩ | ⟨ht, hfree, -⟩
  · refine ⟨_, PageSet.of_table h hd hi ht hv hp, fun n => ?_⟩
    have hentry : present (load32 s.mem (t + 4 * pteIndex vaddr)) = false :=
      not_present_of_walk hnone ht
    have hframe := (h.taken d _ t hd hi ht).isFrame h.shape
    rw [memoryCreateMap]
    simp only [he, if_neg (hpos hframe), hentry, Bool.false_eq_true, if_false]
  · refine ⟨_, PageSet.of_new_table h hd hi ht ha hv hp rfl, fun n => ?_⟩
    have hentry : present (load32 (installTable s.mem d (pdeIndex vaddr) t)
        (t + 4 * pteIndex vaddr)) = false := by
      have hzero := entryAt_installTable_zero (d := d) (i := pdeIndex vaddr) ha.frame s.mem
        (pteIndex_lt vaddr)
      unfold entryAt at hzero
      rw [hzero]
      rfl
    rw [memoryCreateMap]
    simp only [he, if_neg (hpos ha.frame), hentry, Bool.false_eq_true, if_false]
  · have hone := hroom ht
    omega

/-! ### A range -/

/-- The `n` pages from `v` on are mapped to the range from `paddr` on, in the directory `d` and
in those that share the table of the page. No other page of any directory has changed. -/
structure RangeSet (L : Layout) (live : List Nat) (s : MemState) (d v paddr n perm : Nat)
    (s' : MemState) : Prop where
  pages : ∀ d', Root L live d' → ∀ k < n, Shares s.mem d d' (pdeIndex (v + 4096 * k)) →
    walk s'.mem d' (v + 4096 * k) = some (physPage paddr k ||| perm ||| pteP)
  others : ∀ d', Root L live d' → ∀ i < 1024, ∀ j < 1024,
    (∀ k < n, ¬ (i = pdeIndex (v + 4096 * k) ∧ j = pteIndex (v + 4096 * k) ∧
      Shares s.mem d d' i)) →
    pageAt s'.mem d' i j = pageAt s.mem d' i j

/-- A page in front of a range. -/
theorem RangeSet.cons (hv : v + 4096 * (n + 1) ≤ 2 ^ 32) (hlt : paddr < 2 ^ 32)
    (h₁ : PageSet L live s d v (paddr ||| perm ||| pteP) s₁)
    (h₂ : RangeSet L live s₁ d (v + 4096) (physPage paddr 1) n perm s') :
    RangeSet L live s d v paddr (n + 1) perm s' := by
  have hidx : ∀ k ≤ n, pdeIndex (v + 4096 * k) < 1024 := fun k hk => pdeIndex_lt (by omega)
  constructor
  · intro d' hd' k hk hs
    cases k with
    | zero =>
      -- The first page is none of the rest, so it keeps its entry.
      show walk s'.mem d' v = _
      rw [physPage_zero hlt, ← h₁.page d' hd' hs]
      refine h₂.others d' hd' _ (hidx 0 (by omega)) _ (pteIndex_lt v) fun k hk hkk => ?_
      have hsame := same_page hkk.1 hkk.2.1
      omega
    | succ k =>
      have hpage := h₂.pages d' hd' k (by omega)
      rw [page_succ, physPage_succ] at hpage
      exact hpage ((h₁.shares d' hd' _ (hidx (k + 1) (by omega))).mpr hs)
  · intro d' hd' i hi j hj hother
    rw [h₂.others d' hd' i hi j hj ?_]
    · exact h₁.others d' hd' i hi j hj (hother 0 (by omega))
    · intro k hk
      rw [page_succ, h₁.shares d' hd' i hi]
      exact hother (k + 1) (by omega)

/-- The call for a range of unmapped pages from the page boundary `v` on. The induction is on the
number of pages. -/
theorem memoryCreateMap_range (h : TablesApart L live s) (hd : Root L live d)
    (hv : v + 4096 * n ≤ 2 ^ 32) (hal : paddr % 4096 = 0) (hlt : paddr < 2 ^ 32)
    (hperm : perm < 4096) (hfree : ∀ k < n, walk s.mem d (v + 4096 * k) = none)
    (hroom : (missing s.mem d v n).card ≤ freeCount s.paddrAlloc) :
    ∃ s', memoryCreateMap s d (toU32 v) paddr n perm = some (0, s') ∧
      RangeSet L live s d v paddr n perm s' := by
  induction n generalizing s v paddr with
  | zero =>
    refine ⟨s, rfl, ?_, fun d' hd' i hi j hj _ => rfl⟩
    intro d' hd' k hk
    omega
  | succ n ih =>
    have hidx : pdeIndex v < 1024 := pdeIndex_lt (by omega)
    have hfirst : walk s.mem d v = none := by simpa using hfree 0 (by omega)
    rw [toU32_natCast (by omega)]
    have hone : tableAt s.mem d (pdeIndex v) = none → 0 < freeCount s.paddrAlloc := by
      intro hnone
      have hmem : pdeIndex v ∈ missing s.mem d v (n + 1) :=
        mem_missing.mpr ⟨⟨0, by omega, rfl⟩, hnone⟩
      have hpos := Finset.card_pos.mpr ⟨_, hmem⟩
      omega
    obtain ⟨s₁, hset, hstep⟩ := h.mapPage hd hidx hfirst hal hlt hperm hone
    -- The frames that are left suffice for the rest of the range.
    have hneed := framesNeeded_succ hv hset.tables hset.table
    have hcount := hset.count
    have hroom' : (missing s₁.mem d (v + 4096) n).card ≤ freeCount s₁.paddrAlloc := by
      unfold framesNeeded at hneed
      omega
    have hrest : ∀ k < n, walk s₁.mem d (v + 4096 + 4096 * k) = none := by
      intro k hk
      have hother := fun i hi j hj (hne : ¬ (i = pdeIndex v ∧ j = pteIndex v)) =>
        hset.others d hd i hi j hj fun he => hne ⟨he.1, he.2.1⟩
      rw [walk_behind hv hother hk]
      exact hfree (k + 1) (by omega)
    have hend : v + 4096 + 4096 * n ≤ 2 ^ 32 := (page_succ v n).trans_le hv
    have hal' : physPage paddr 1 % 4096 = 0 := by
      unfold physPage
      omega
    obtain ⟨s', he, hrange⟩ := ih hset.apart hend hal' (Nat.mod_lt _ (by decide)) hrest hroom'
    refine ⟨s', ?_, hrange.cons hv hlt hset⟩
    rw [hstep n, physPage_next, ← he, Nat.cast_add]
    rfl

/-! ### Any address of the first page -/

/-- The call looks only at the page of its address. -/
theorem memoryCreateMap_page (h : v / 4096 = w / 4096) :
    memoryCreateMap s d v paddr n perm = memoryCreateMap s d w paddr n perm := by
  induction n generalizing s v w paddr with
  | zero => rfl
  | succ n ih =>
    obtain ⟨hpde, hpte⟩ := page_indices h
    have hfind : findPte s d v true = findPte s d w true := by
      unfold findPte
      rw [hpde, hpte]
    have hrest : ∀ s' p', memoryCreateMap s' d (toU32 ((v : Int) + memPageSize)) p' n perm =
        memoryCreateMap s' d (toU32 ((w : Int) + memPageSize)) p' n perm :=
      fun _ _ => ih (next_page h)
    rw [memoryCreateMap, memoryCreateMap, hfind]
    simp only [hrest]

/-- The page of `w` is one of the `n` pages from the page of `v` on. -/
def InRange (v n w : Nat) : Prop := ∃ k < n, w / 4096 = v / 4096 + k

/-- A page of the range has the indices of one of the addresses that the loop comes to. -/
theorem InRange.indices (h : InRange v n w) : ∃ k < n,
    pdeIndex w = pdeIndex (v / 4096 * 4096 + 4096 * k) ∧
      pteIndex w = pteIndex (v / 4096 * 4096 + 4096 * k) := by
  obtain ⟨k, hk, he⟩ := h
  exact ⟨k, hk, page_indices (by omega)⟩

/-- A page outside the range has other indices. -/
theorem not_inRange (h : ¬ InRange v n w) (hk : k < n) :
    ¬ (pdeIndex w = pdeIndex (v / 4096 * 4096 + 4096 * k) ∧
      pteIndex w = pteIndex (v / 4096 * 4096 + 4096 * k)) := by
  rintro ⟨hi, hj⟩
  have hsame := same_page hi hj
  exact h ⟨k, hk, by omega⟩

/-- `memory_create_map` for `n` unmapped pages from the page of `vaddr` on returns 0, if there
are frames for the missing tables. The page `k` translates to the page `k` of the physical
range, with the permission `perm`. Every other page of the directory translates as before.
A page of another directory translates as before too, unless it is a page of the range and
its table is the one of this directory: then it has the new translation. -/
theorem memoryCreateMap_exact (h : MemInv L s live held) (hd : Root L live d)
    (hv : vaddr < 2 ^ 32) (hend : vaddr / 4096 * 4096 + 4096 * n ≤ 2 ^ 32)
    (hal : paddr % 4096 = 0) (hlt : paddr < 2 ^ 32) (hperm : perm < 4096)
    (hfree : ∀ k < n, walk s.mem d (vaddr / 4096 * 4096 + 4096 * k) = none)
    (hroom : (missing s.mem d (vaddr / 4096 * 4096) n).card ≤ freeCount s.paddrAlloc) :
    ∃ s', memoryCreateMap s d vaddr paddr n perm = some (0, s') ∧
      (∀ k < n, ∃ e, walk s'.mem d (vaddr / 4096 * 4096 + 4096 * k) = some e ∧
        ptePaddr e = (paddr + 4096 * k) % 2 ^ 32 ∧ e % 4096 = perm ||| pteP) ∧
      (∀ w < 2 ^ 32, ¬ InRange vaddr n w → walk s'.mem d w = walk s.mem d w) ∧
      ∀ d', Root L live d' → d' ≠ d → ∀ w < 2 ^ 32,
        (InRange vaddr n w ∧ Shares s.mem d d' (pdeIndex w) →
          walk s'.mem d' w = walk s'.mem d w) ∧
        (¬ (InRange vaddr n w ∧ Shares s.mem d d' (pdeIndex w)) →
          walk s'.mem d' w = walk s.mem d' w) := by
  obtain ⟨s', he, hr⟩ := memoryCreateMap_range h.tablesApart hd hend hal hlt hperm hfree hroom
  rw [toU32_natCast (by omega)] at he
  refine ⟨s', ?_, ?_, ?_, ?_⟩
  · rw [← he]
    exact memoryCreateMap_page (by omega)
  · intro k hk
    have hphys : physPage paddr k % 4096 = 0 := by
      unfold physPage
      omega
    obtain ⟨-, haddr, hbits⟩ := entry_fields hphys hperm
    exact ⟨_, hr.pages d hd k hk (Or.inl rfl), haddr, hbits⟩
  · intro w hw hout
    refine hr.others d hd _ (pdeIndex_lt hw) _ (pteIndex_lt w) fun k hk he => ?_
    exact not_inRange hout hk ⟨he.1, he.2.1⟩
  · intro d' hd' hne w hw
    constructor
    · -- Both directories read the entry in the table that they share.
      intro ⟨hin, hs⟩
      obtain ⟨k, hk, hi, hj⟩ := hin.indices
      rw [hi] at hs
      have hnew := hr.pages d' hd' k hk hs
      have hown := hr.pages d hd k hk (Or.inl rfl)
      unfold walk at hnew hown ⊢
      rw [hi, hj, hnew, hown]
    · intro hout
      refine hr.others d' hd' _ (pdeIndex_lt hw) _ (pteIndex_lt w) fun k hk he => ?_
      by_cases hin : InRange vaddr n w
      · exact hout ⟨hin, he.2.2⟩
      · exact not_inRange hin hk ⟨he.1, he.2.1⟩

/-- Two pages are mapped in the user half of an empty address space. -/
theorem memoryCreateMap_exact_two :
    ∃ s', memoryCreateMap (oneSpace 3) 0x100000 0x80000005 0x200000 2 pteW = some (0, s') ∧
      (∀ k < 2, ∃ e, walk s'.mem 0x100000 (0x80000005 / 4096 * 4096 + 4096 * k) = some e ∧
        ptePaddr e = (0x200000 + 4096 * k) % 2 ^ 32 ∧ e % 4096 = pteW ||| pteP) ∧
      (∀ w < 2 ^ 32, ¬ InRange 0x80000005 2 w →
        walk s'.mem 0x100000 w = walk (oneSpace 3).mem 0x100000 w) ∧
      ∀ d', Root smallLayout [0x100000] d' → d' ≠ 0x100000 → ∀ w < 2 ^ 32,
        (InRange 0x80000005 2 w ∧ Shares (oneSpace 3).mem 0x100000 d' (pdeIndex w) →
          walk s'.mem d' w = walk s'.mem 0x100000 w) ∧
        (¬ (InRange 0x80000005 2 w ∧ Shares (oneSpace 3).mem 0x100000 d' (pdeIndex w)) →
          walk s'.mem d' w = walk (oneSpace 3).mem d' w) :=
  memoryCreateMap_exact (oneSpace_inv (by decide) (by decide)) (Or.inr (by simp)) (by decide)
    (by decide) (by decide) (by decide) (by decide) (fun _ _ => walk_clear _ _)
    (by decide +kernel)

/-! ### A table of the kernel -/

/-- A cleared memory with `frames` free frames. -/
def freeSpace (frames : Nat) : MemState where
  mem := fun _ => 0#8
  paddrAlloc :=
    { bitmap := { bitCount := frames, bits := fun _ => 0#8 }
      pageSize := memPageSize
      start := memExtStart
      size := frames * memPageSize }

/-- An address space can be created whose table for the index 0 is the empty one of the kernel. -/
theorem exists_sharedTable : ∃ s d t, MemInv smallLayout s [d] [] ∧ smallLayout.kernelPageDir ≠ d ∧
    tableAt s.mem d 0 = some t ∧ tableAt s.mem smallLayout.kernelPageDir 0 = some t ∧
    ∀ j < 1024, entryAt s.mem t j = 0 := by
  have hshape : PallocShape (freeSpace 3).paddrAlloc :=
    ⟨rfl, rfl, by decide, by decide, by decide⟩
  have hempty : MemInv smallLayout (freeSpace 3) [] [] :=
    memInv_empty hshape (by decide) fun i _ => tableAt_clear _ i
  have hcount : freeCount (freeSpace 3).paddrAlloc = 3 := by decide +kernel
  -- The first frame becomes the table of the kernel.
  rcases addrAllocPage_one hshape with ⟨t, a₁, -, ha⟩ | ⟨-, hzero⟩
  swap
  · omega
  have ho : OwnsEntry smallLayout [] smallLayout.kernelPageDir 0 := ownsEntry_kernel (by decide)
  have h₁ := hempty.install ho ha (fun _ => rfl) (tableAt_clear _ 0)
  have hkt := hempty.root_ne_fresh (Or.inl rfl) ha.fresh ha.frame
  have htable := tableAt_installTable ha.frame smallLayout.aligned hkt (i := 0) (by decide)
    (freeSpace 3).mem
  -- The second frame becomes the directory.
  rcases memoryCreateUvm_cases h₁ with ⟨d, a₂, -, hd, h₂⟩ | ⟨-, hzero⟩
  swap
  · have hleft := ha.count
    have hnone : freeCount a₁ = 0 := hzero
    omega
  have hkd := h₁.root_ne_fresh (Or.inl rfl) hd.fresh hd.frame
  obtain ⟨htouched, hlow, -⟩ := newDir_spec (L := smallLayout) (installTable (freeSpace 3).mem
    smallLayout.kernelPageDir 0 t) hd.frame hkd
  have hkernel := (tableAt_touched htouched smallLayout.aligned hkd (i := 0) (by decide)).trans
    htable
  have htd : t ≠ d := h₁.table_ne_fresh ho htable hd.fresh
  refine ⟨_, d, t, h₂, hkd, ?_, hkernel, fun j hj => ?_⟩
  · rw [h₂.tableAt_shared (by simp) (by decide)]
    exact hkernel
  · show entryAt (newDir smallLayout _ d) t j = 0
    rw [entryAt_touched htouched ha.frame.aligned htd hj]
    exact entryAt_installTable_zero ha.frame _ hj

/-- Mapping a page in the kernel half of an address space changes the translation of that page in
`kernel_page_dir`, since the two share the table. -/
theorem create_map_shared : ∃ s d, MemInv smallLayout s [d] [] ∧
    smallLayout.kernelPageDir ≠ d ∧ walk s.mem d 0x80000 = none ∧
    (missing s.mem d 0x80000 1).card ≤ freeCount s.paddrAlloc ∧
    ∃ s', memoryCreateMap s d 0x80000 0x200000 1 pteW = some (0, s') ∧
      walk s'.mem smallLayout.kernelPageDir 0x80000 ≠
        walk s.mem smallLayout.kernelPageDir 0x80000 := by
  obtain ⟨s, d, t, h, hne, htd, htk, hzero⟩ := exists_sharedTable
  have hi : pdeIndex (0x80000 + 4096 * 0) = 0 := by decide
  -- The shared table is empty, and it is the only one that the page needs.
  have hunmapped : ∀ d', tableAt s.mem d' 0 = some t → walk s.mem d' 0x80000 = none := by
    intro d' ht
    unfold walk
    rw [show pdeIndex 0x80000 = 0 from rfl, pageAt_of_table ht, hzero _ (pteIndex_lt _)]
    rfl
  have hmissing : missing s.mem d 0x80000 1 = ∅ := by
    refine Finset.eq_empty_of_forall_notMem fun i hmem => ?_
    obtain ⟨⟨k, hk, rfl⟩, hnone⟩ := mem_missing.mp hmem
    obtain rfl : k = 0 := by omega
    rw [hi, htd] at hnone
    cases hnone
  have hroom : (missing s.mem d 0x80000 1).card ≤ freeCount s.paddrAlloc := by
    rw [hmissing]
    exact Nat.zero_le _
  have hfree : ∀ k < 1, walk s.mem d (0x80000 + 4096 * k) = none := by
    intro k hk
    obtain rfl : k = 0 := by omega
    exact hunmapped d htd
  have hperm : pteW < 4096 := by decide
  have haddr : 0x200000 % 4096 = 0 := by decide
  obtain ⟨s', he, hr⟩ := memoryCreateMap_range h.tablesApart (Or.inr (by simp)) (by decide) haddr
    (by decide) hperm hfree hroom
  refine ⟨s, d, h, hne, hunmapped d htd, hroom, s', he, ?_⟩
  have hnew := hr.pages _ (Or.inl rfl) 0 (by decide) (Or.inr ⟨t, hi ▸ htd, hi ▸ htk⟩)
  rw [hunmapped _ htk, show (0x80000 : Nat) = 0x80000 + 4096 * 0 from rfl, hnew]
  exact Option.some_ne_none _

end StartKernel
