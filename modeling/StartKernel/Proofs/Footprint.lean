import StartKernel.Proofs.CreateMap

/-!
# `StartKernel.Proofs.Footprint`: the frames of an address space

The operations on an address space take free frames for it and write only to its own frames
(`Grown`, and `Created` when the address space is new). So no other address space changes, and
the kernel half does not change either.

* `MemInv.samePages`, `MemInv.sameBytes`: what is written to the frames of one address space is
  not seen by another one.
* `MemInv.addPage`: the ways in which one page is allocated and mapped.
* `allocForPages_grown`: `memory_alloc_for_page_dir` takes frames for the address space, and when
  it fails it may leave one frame taken that nobody uses.
-/

set_option autoImplicit false

namespace StartKernel

open ByteMem (Mem AgreeOff)
open Ownership (Owned)

variable {L : Layout} {s s' s₁ s₂ : MemState} {live held : List Nat} {a' : AddrAlloc}
  {m m' : Mem} {d d' f g i i' j j' k n p t v vaddr perm : Nat} {r : Role}

/-! ### Frames behind a directory -/

/-- The frames behind an entry, as a table and its pages. -/
theorem entryFrame_iff : EntryFrame m d i g ↔
    tableAt m d i = some g ∨ ∃ j < 1024, ∃ v, pageAt m d i j = some v ∧ ptePaddr v = g := by
  constructor
  · rintro ⟨t, ht, rfl | hpage⟩
    · exact Or.inl ht
    · exact Or.inr hpage
  · rintro (ht | ⟨j, hj, v, hv, hg⟩)
    · exact ⟨g, ht, Or.inl rfl⟩
    · obtain ⟨t, ht⟩ := tableAt_of_pageAt (h := by rw [hv]; exact Option.some_ne_none v)
      exact ⟨t, ht, Or.inr ⟨j, hj, v, hv, hg⟩⟩

theorem footprint_table (h₁ : 512 ≤ i) (h₂ : i < 1024) (ht : tableAt m d i = some g) :
    Footprint m d g :=
  Or.inr ⟨i, h₁, h₂, entryFrame_iff.mpr (Or.inl ht)⟩

theorem footprint_page (h₁ : 512 ≤ i) (h₂ : i < 1024) (hj : j < 1024)
    (hv : pageAt m d i j = some v) : Footprint m d (ptePaddr v) :=
  Or.inr ⟨i, h₁, h₂, entryFrame_iff.mpr (Or.inr ⟨j, hj, v, hv, rfl⟩)⟩

/-- The directory has the same tables and the same pages in both memories. -/
structure SamePages (m m' : Mem) (d : Nat) : Prop where
  tables : ∀ i < 1024, tableAt m' d i = tableAt m d i
  pages : ∀ i < 1024, ∀ j < 1024, pageAt m' d i j = pageAt m d i j

theorem SamePages.refl (m : Mem) (d : Nat) : SamePages m m d :=
  ⟨fun _ _ => rfl, fun _ _ _ _ => rfl⟩

theorem SamePages.trans {m'' : Mem} (h : SamePages m m' d) (h' : SamePages m' m'' d) :
    SamePages m m'' d :=
  ⟨fun i hi => (h'.tables i hi).trans (h.tables i hi),
    fun i hi j hj => (h'.pages i hi j hj).trans (h.pages i hi j hj)⟩

/-- The same pages are behind the same frames. -/
theorem SamePages.footprint (h : SamePages m m' d) : Footprint m' d g ↔ Footprint m d g := by
  have hentry : ∀ i < 1024, EntryFrame m' d i g ↔ EntryFrame m d i g := by
    intro i hi
    rw [entryFrame_iff, entryFrame_iff, h.tables i hi]
    constructor
    · rintro (ht | ⟨j, hj, v, hv, hg⟩)
      · exact Or.inl ht
      · exact Or.inr ⟨j, hj, v, (h.pages i hi j hj).symm.trans hv, hg⟩
    · rintro (ht | ⟨j, hj, v, hv, hg⟩)
      · exact Or.inl ht
      · exact Or.inr ⟨j, hj, v, (h.pages i hi j hj).trans hv, hg⟩
  unfold Footprint
  constructor
  · rintro (hg | ⟨i, h₁, h₂, hg⟩)
    · exact Or.inl hg
    · exact Or.inr ⟨i, h₁, h₂, (hentry i h₂).mp hg⟩
  · rintro (hg | ⟨i, h₁, h₂, hg⟩)
    · exact Or.inl hg
    · exact Or.inr ⟨i, h₁, h₂, (hentry i h₂).mpr hg⟩

/-! ### Writing to one address space -/

/-- The address space that a frame in the role belongs to. -/
def Role.owner : Role → Option Nat
  | .dir d => some d
  | .table d _ => some d
  | .page d _ _ => some d
  | .held _ => none

section Other

variable (h : MemInv L s' live held) (hd : d ∈ live)

include h hd

/-- A frame in use elsewhere is not one of the address space. -/
theorem MemInv.not_footprint (hu : Uses L s'.mem live held g r) (hr : r.owner ≠ some d) :
    ¬ Footprint s'.mem d g := by
  intro hg
  rcases footprint_uses held hd hg with hu' | ⟨i, hu'⟩ | ⟨i, j, hu'⟩
  · exact hr (h.owned.unique hu hu' ▸ rfl)
  · exact hr (h.owned.unique hu hu' ▸ rfl)
  · exact hr (h.owned.unique hu hu' ▸ rfl)

theorem MemInv.kernel_not_live : L.kernelPageDir ≠ d :=
  h.kernel_ne (h.dir_isFrame hd)

variable (htouched : TouchedOnly (Footprint s'.mem d) s.mem s'.mem) (hd' : Root L live d')
  (hne : d' ≠ d)

omit htouched in
include hd' hne in
theorem MemInv.root_not_footprint : ¬ Footprint s'.mem d d' := by
  rcases hd' with rfl | hd'
  · intro hg
    exact h.kernel_ne ((h.footprint_taken hd hg).isFrame h.shape) rfl
  · exact h.not_footprint hd (r := .dir d') ⟨hd', rfl⟩ fun he => hne (Option.some.inj he)

include htouched hd' hne

/-- What is written to the frames of one address space does not change the pages of another
directory. -/
theorem MemInv.samePages : SamePages s.mem s'.mem d' := by
  have hroot := h.root_not_footprint hd hd' hne
  have htables : ∀ i < 1024, tableAt s'.mem d' i = tableAt s.mem d' i := fun i hi =>
    tableAt_touched htouched (h.root_aligned hd') hroot hi
  refine ⟨htables, fun i hi j hj => ?_⟩
  refine pageAt_touched htouched (h.root_aligned hd') hroot hi hj fun t ht => ?_
  -- The table belongs to the directory or to the kernel, and not to the address space.
  obtain ⟨d₁, ho₁, ht₁, howner⟩ := h.table_owner hd' hi ((htables i hi).trans ht)
  refine h.not_footprint hd (r := .table d₁ i) ⟨ho₁, ht₁⟩ fun he => ?_
  obtain rfl : d₁ = d := Option.some.inj he
  rcases howner with rfl | ⟨rfl, -⟩
  · exact hne rfl
  · exact h.kernel_not_live hd rfl

omit hd' in
/-- What is written to the frames of one address space does not change the contents of the pages
of another one. -/
theorem MemInv.sameBytes (hd' : d' ∈ live) (h₁ : 512 ≤ i) (h₂ : i < 1024) (hj : j < 1024)
    (hv : pageAt s'.mem d' i j = some v) (hk : k < 4096) :
    s'.mem (ptePaddr v + k) = s.mem (ptePaddr v + k) := by
  refine htouched _ ?_
  show ¬ Footprint s'.mem d ((ptePaddr v + k) / 4096 * 4096)
  rw [page_start (ptePaddr_aligned v) hk]
  exact h.not_footprint hd (r := .page d' i j) ⟨hd', h₁, h₂, hj, v, hv, rfl⟩ fun he =>
    hne (Option.some.inj he)

end Other

/-! ### An address space grows -/

/-- From `s` to `s'` the address space of `d` took frames that were free, no other frame was
taken, and nothing was written outside its frames. -/
structure Grown (s : MemState) (d : Nat) (s' : MemState) : Prop where
  touched : TouchedOnly (Footprint s'.mem d) s.mem s'.mem
  keeps : ∀ g, Footprint s.mem d g → Footprint s'.mem d g
  fresh : ∀ g, Footprint s'.mem d g → Footprint s.mem d g ∨ ¬ Taken s.paddrAlloc g
  taken : ∀ g, Taken s'.paddrAlloc g ↔ Taken s.paddrAlloc g ∨ Footprint s'.mem d g

/-- The address space of `d` is new in `s'`: all its frames were free in `s`, no other frame was
taken, and nothing was written outside its frames. -/
structure Created (s : MemState) (d : Nat) (s' : MemState) : Prop where
  touched : TouchedOnly (Footprint s'.mem d) s.mem s'.mem
  fresh : ∀ g, Footprint s'.mem d g → ¬ Taken s.paddrAlloc g
  taken : ∀ g, Taken s'.paddrAlloc g ↔ Taken s.paddrAlloc g ∨ Footprint s'.mem d g

/-- Nothing has happened. -/
theorem Grown.refl (h : MemInv L s live held) (hd : d ∈ live) : Grown s d s where
  touched := AgreeOff.refl _ _
  keeps _ hg := hg
  fresh _ hg := Or.inl hg
  taken _ := ⟨Or.inl, fun hg => hg.elim id fun hg => h.footprint_taken hd hg⟩

/-- The frames that are taken after an address space grew once more. -/
theorem Grown.taken_after (h' : Grown s₁ d s')
    (htaken : ∀ g, Taken s₁.paddrAlloc g ↔ Taken s.paddrAlloc g ∨ Footprint s₁.mem d g) (g : Nat) :
    Taken s'.paddrAlloc g ↔ Taken s.paddrAlloc g ∨ Footprint s'.mem d g := by
  rw [h'.taken g, htaken g]
  constructor
  · rintro ((hg | hg) | hg)
    · exact Or.inl hg
    · exact Or.inr (h'.keeps g hg)
    · exact Or.inr hg
  · exact fun hg => hg.imp Or.inl id

theorem Grown.trans (h : Grown s d s₁) (h' : Grown s₁ d s') : Grown s d s' where
  touched := (h.touched.mono fun _ hg => h'.keeps _ hg).trans h'.touched
  keeps g hg := h'.keeps g (h.keeps g hg)
  fresh g hg := by
    rcases h'.fresh g hg with hg | hfree
    · exact h.fresh g hg
    · exact Or.inr fun htaken => hfree ((h.taken g).mpr (Or.inl htaken))
  taken := h'.taken_after h.taken

/-- A new address space grows. -/
theorem Created.trans (h : Created s d s₁) (h' : Grown s₁ d s') : Created s d s' where
  touched := (h.touched.mono fun _ hg => h'.keeps _ hg).trans h'.touched
  fresh g hg := by
    rcases h'.fresh g hg with hg | hfree
    · exact h.fresh g hg
    · exact fun htaken => hfree ((h.taken g).mpr (Or.inl htaken))
  taken := h'.taken_after h.taken

/-! ### One page -/

/-- The free frame `p` became the page of `d` at the indices `i` and `j`. A free frame may have
become its table. -/
structure AddedPage (L : Layout) (s : MemState) (live held : List Nat) (d i j p perm : Nat)
    (s' : MemState) : Prop where
  inv : MemInv L s' live held
  frame : IsFrame p
  fresh : ¬ Taken s.paddrAlloc p
  touched : TouchedOnly (fun g => g = d ∨ tableAt s'.mem d i = some g ∨ g = p) s.mem s'.mem
  page : pageAt s'.mem d i j = some (p ||| perm ||| pteP)
  others : ∀ i' < 1024, ∀ j' < 1024, ¬ (i' = i ∧ j' = j) →
    pageAt s'.mem d i' j' = pageAt s.mem d i' j'
  tables : ∀ i' < 1024, i' ≠ i → tableAt s'.mem d i' = tableAt s.mem d i'
  keeps : ∀ t, tableAt s.mem d i = some t → tableAt s'.mem d i = some t
  freshTable : ∀ t, tableAt s'.mem d i = some t →
    tableAt s.mem d i = some t ∨ ¬ Taken s.paddrAlloc t
  taken : ∀ g, Taken s'.paddrAlloc g ↔
    Taken s.paddrAlloc g ∨ g = p ∨ tableAt s'.mem d i = some g
  count : freeCount s.paddrAlloc = freeCount s'.paddrAlloc + 1 +
    if tableAt s.mem d i = none then 1 else 0

/-- The three ways in which a page is allocated and mapped at an address of the user half: there
is no frame for it; there is one, but none for its table; or the page is added. -/
theorem MemInv.addPage (h : MemInv L s live held) (hd : d ∈ live) (h₁ : 512 ≤ pdeIndex vaddr)
    (h₂ : pdeIndex vaddr < 1024) (hnone : walk s.mem d vaddr = none) (hperm : perm < 4096) :
    (s.allocPage = (0, s) ∧ freeCount s.paddrAlloc = 0) ∨
    (∃ p a', s.allocPage = (p, { s with paddrAlloc := a' }) ∧ p ≠ 0 ∧
      Allocated s.paddrAlloc p a' ∧ freeCount a' = 0 ∧ tableAt s.mem d (pdeIndex vaddr) = none ∧
      memoryCreateMap { s with paddrAlloc := a' } d vaddr p 1 perm
        = some (-1, { s with paddrAlloc := a' })) ∨
    (∃ p a' s', s.allocPage = (p, { s with paddrAlloc := a' }) ∧ p ≠ 0 ∧
      memoryCreateMap { s with paddrAlloc := a' } d vaddr p 1 perm = some (0, s') ∧
      AddedPage L s live held d (pdeIndex vaddr) (pteIndex vaddr) p perm s') := by
  rcases allocPage_cases h.shape with ⟨p, a', he, ha⟩ | ⟨he, hzero⟩
  swap
  · exact Or.inl ⟨he, hzero⟩
  have hpos : p ≠ 0 := ha.frame.ne_zero
  have hlt : p < 2 ^ 32 := by
    have hbelow := ha.frame.below
    omega
  have hinv := h.alloc ha
  have hk : d = L.kernelPageDir → live = [] := fun hdk => absurd hdk.symm (h.kernel_not_live hd)
  rcases memoryCreateMap_step hinv (ownsEntry_user hd h₁ h₂) hk hnone ha.frame.aligned hlt hperm
      (fun _ => ⟨(ha.taken p).mpr (Or.inr rfl), h.unused ha.fresh⟩) with
    ⟨s', hmapped, hinv', hstep⟩ | ⟨htable, hzero, hstep⟩
  swap
  · exact Or.inr (Or.inl ⟨p, a', he, hpos, ha, hzero, htable, hstep 0⟩)
  -- The other view of the same step says that a new table was free.
  have hroom : tableAt s.mem d (pdeIndex vaddr) = none → 0 < freeCount a' := by
    intro htable
    have hcount := hmapped.count
    rw [if_pos htable] at hcount
    have hleft : freeCount a' = freeCount s'.paddrAlloc + 1 := hcount
    omega
  obtain ⟨s₁, hset, hstep₁⟩ := hinv.tablesApart.mapPage (Or.inr hd) h₂ hnone ha.frame.aligned hlt
    hperm hroom
  obtain rfl : s₁ = s' := by
    have hsame := (hstep₁ 0).symm.trans (hstep 0)
    exact (Prod.mk.inj (Option.some.inj hsame)).2
  refine Or.inr (Or.inr ⟨p, a', s₁, he, hpos, hstep 0, hinv', ha.frame, ha.fresh, ?_, hmapped.page,
    hmapped.others, hmapped.tables, hmapped.keeps, ?_, ?_, ?_⟩)
  · exact hmapped.touched.mono fun x hx => hx.imp id Or.inl
  · intro t ht
    refine (hset.fresh t ht).imp id fun hfree htaken => hfree ?_
    exact (ha.taken t).mpr (Or.inl htaken)
  · intro g
    rw [hmapped.taken g]
    show Taken a' g ∨ _ ↔ _
    rw [ha.taken g, or_assoc]
  · have hcount : freeCount a' = freeCount s₁.paddrAlloc +
        if tableAt s.mem d (pdeIndex vaddr) = none then 1 else 0 := hmapped.count
    rw [ha.count, hcount]
    omega

section Added

variable (h : AddedPage L s live held d i j p perm s') (hd : d ∈ live) (h₁ : 512 ≤ i)
  (h₂ : i < 1024) (hj : j < 1024) (hperm : perm < 4096)

include h

theorem AddedPage.table : tableAt s'.mem d i ≠ none := by
  obtain ⟨t, ht⟩ := tableAt_of_pageAt (h := by rw [h.page]; exact Option.some_ne_none _)
  rw [ht]
  exact Option.some_ne_none t

include hd h₁ h₂ hj hperm

/-- The frame of the page is in use as the page. -/
theorem AddedPage.uses : Uses L s'.mem live held p (.page d i j) :=
  ⟨hd, h₁, h₂, hj, _, h.page, (entry_fields h.frame.aligned hperm).2.1⟩

/-- Adding a page is growing. -/
theorem AddedPage.grown (hfree : pageAt s.mem d i j = none) : Grown s d s' := by
  have hpfoot : Footprint s'.mem d p := by
    have hg := footprint_page h₁ h₂ hj h.page
    rwa [(entry_fields h.frame.aligned hperm).2.1] at hg
  have hold : ∀ i' < 1024, ∀ t, tableAt s.mem d i' = some t → tableAt s'.mem d i' = some t := by
    intro i' hi' t ht
    by_cases hii : i' = i
    · subst hii
      exact h.keeps t ht
    · exact (h.tables i' hi' hii).trans ht
  refine ⟨h.touched.mono ?_, ?_, ?_, ?_⟩
  · rintro x (hx | hx | hx)
    · exact Or.inl hx
    · exact footprint_table h₁ h₂ hx
    · exact hx ▸ hpfoot
  · rintro g (hg | ⟨i', hlow, hi', hg⟩)
    · exact Or.inl hg
    · rcases entryFrame_iff.mp hg with ht | ⟨j', hj', v, hv, rfl⟩
      · exact footprint_table hlow hi' (hold i' hi' g ht)
      · refine footprint_page hlow hi' hj' ((h.others i' hi' j' hj' ?_).trans hv)
        rintro ⟨rfl, rfl⟩
        rw [hfree] at hv
        cases hv
  · rintro g (hg | ⟨i', hlow, hi', hg⟩)
    · exact Or.inl (Or.inl hg)
    · rcases entryFrame_iff.mp hg with ht | ⟨j', hj', v, hv, hvg⟩
      · -- A table is an old one or the new one.
        by_cases hii : i' = i
        · subst hii
          exact (h.freshTable g ht).imp (footprint_table hlow hi') id
        · exact Or.inl (footprint_table hlow hi' ((h.tables i' hi' hii).symm.trans ht))
      · -- A page is an old one or the new one.
        by_cases hij : i' = i ∧ j' = j
        · obtain ⟨rfl, rfl⟩ := hij
          rw [h.page] at hv
          obtain rfl := Option.some.inj hv
          rw [(entry_fields h.frame.aligned hperm).2.1] at hvg
          exact Or.inr (hvg ▸ h.fresh)
        · left
          rw [h.others i' hi' j' hj' hij] at hv
          exact hvg ▸ footprint_page hlow hi' hj' hv
  · intro g
    rw [h.taken g]
    constructor
    · rintro (hg | hg | hg)
      · exact Or.inl hg
      · exact Or.inr (hg ▸ hpfoot)
      · exact Or.inr (footprint_table h₁ h₂ hg)
    · rintro (hg | hg)
      · exact Or.inl hg
      · exact (h.taken g).mp (h.inv.footprint_taken hd hg)

/-- The new page is written. -/
theorem AddedPage.write (htouched : TouchedOnly (· = p) s'.mem m) :
    AddedPage L s live held d i j p perm ⟨m, s'.paddrAlloc⟩ := by
  have hu := h.uses hd h₁ h₂ hj hperm
  obtain ⟨hinv, hpages⟩ := h.inv.touch_page htouched hu
  have hdp : d ≠ p := by
    rintro rfl
    have hrole := h.inv.owned.unique (r := .dir d) ⟨hd, rfl⟩ hu
    cases hrole
  have htable : ∀ i' < 1024, tableAt m d i' = tableAt s'.mem d i' := fun i' hi' =>
    tableAt_touched htouched (h.inv.root_aligned (Or.inr hd)) hdp hi'
  -- A page in the kernel half of the directory belongs to the kernel.
  have hpage : ∀ i' < 1024, ∀ j' < 1024, pageAt m d i' j' = pageAt s'.mem d i' j' := by
    intro i' hi' j' hj'
    refine pageAt_touched htouched (h.inv.root_aligned (Or.inr hd)) hdp hi' hj' ?_
    rintro t ht rfl
    obtain ⟨d₁, ho₁, ht₁, -⟩ := h.inv.table_owner (Or.inr hd) hi' ht
    have hrole := h.inv.owned.unique (r := .table d₁ i') ⟨ho₁, ht₁⟩ hu
    cases hrole
  refine ⟨hinv, h.frame, h.fresh, ?_, (hpage i h₂ j hj).trans h.page, ?_, ?_, ?_, ?_, ?_, h.count⟩
  · show TouchedOnly (fun g => g = d ∨ tableAt m d i = some g ∨ g = p) s.mem m
    rw [htable i h₂]
    exact h.touched.trans (htouched.mono fun x hx => Or.inr (Or.inr hx))
  · exact fun i' hi' j' hj' hij => (hpage i' hi' j' hj').trans (h.others i' hi' j' hj' hij)
  · exact fun i' hi' hii => (htable i' hi').trans (h.tables i' hi' hii)
  · exact fun t ht => (htable i h₂).trans (h.keeps t ht)
  · exact fun t ht => h.freshTable t ((htable i h₂).symm.trans ht)
  · intro g
    show _ ↔ _ ∨ _ ∨ tableAt m d i = some g
    rw [htable i h₂]
    exact h.taken g

end Added

/-! ### The loop of `memory_alloc_for_page_dir` -/

/-- From `s` to `s'` the frame `f` was taken, and nobody uses it. -/
def Leaked (s : MemState) (f : Nat) (s' : MemState) : Prop :=
  ∃ a', Allocated s.paddrAlloc f a' ∧ s' = { s with paddrAlloc := a' }

/-- A leaked frame stays taken, and otherwise nothing changes. -/
theorem Leaked.inv (h : MemInv L s live held) (hleak : Leaked s f s') : MemInv L s' live held := by
  obtain ⟨a', ha, rfl⟩ := hleak
  exact h.alloc ha

/-- The address space grows. A call that fails may leave a frame taken that nobody uses. The
induction is on the pages that are left. -/
theorem allocForPages_grown (h : MemInv L s live held) (hd : d ∈ live) (hperm : perm < 4096)
    (hvaddr : 0x80000000 ≤ vaddr) (hlt : vaddr < 2 ^ 32) (hbase : 0x80000000 ≤ v)
    (hv : v + 4096 * n ≤ 2 ^ 32) (hfree : ∀ k < n, walk s.mem d (v + 4096 * k) = none) :
    ∃ ret s₁ s', allocForPages s d vaddr (toU32 v) perm i n = some (ret, s') ∧
      MemInv L s₁ live held ∧ Grown s d s₁ ∧ (s' = s₁ ∨ (ret ≠ 0 ∧ ∃ f, Leaked s₁ f s')) := by
  induction n generalizing s v i with
  | zero => exact ⟨0, s, s, rfl, h, Grown.refl h hd, Or.inl rfl⟩
  | succ n ih =>
    have hfirst : walk s.mem d v = none := by simpa using hfree 0 (by omega)
    have h₁ := pdeIndex_user hbase
    have h₂ : pdeIndex v < 1024 := pdeIndex_lt (by omega)
    rw [toU32_natCast (by omega), allocForPages]
    rcases h.addPage hd h₁ h₂ hfirst hperm with
      ⟨he, -⟩ | ⟨p, a', he, hpos, ha, -, -, hmap⟩ | ⟨p, a', s₂, he, hpos, hmap, hadded⟩
    · -- No frame is left for the page.
      refine ⟨0, s, s, ?_, h, Grown.refl h hd, Or.inl rfl⟩
      simp only [he, if_true]
    · -- No frame is left for the table. Giving back a user address does nothing.
      have huser : addrFreePage a' vaddr (i + 1) = a' := addrFreePage_user ha.shape hvaddr hlt
      have hneg : (-1 : Int) < 0 := by decide
      refine ⟨toU32 (-1), s, { s with paddrAlloc := a' }, ?_, h, Grown.refl h hd,
        Or.inr ⟨by decide, p, a', ha, rfl⟩⟩
      simp only [he, hpos, if_false, hmap, Option.bind_some, hneg, if_true, MemState.freePage,
        huser]
    · have hgrown := hadded.grown hd h₁ h₂ (pteIndex_lt v) hperm hfirst
      have hrest : ∀ k < n, walk s₂.mem d (v + 4096 + 4096 * k) = none := by
        intro k hk
        rw [walk_behind hv hadded.others hk]
        exact hfree (k + 1) (by omega)
      have hend : v + 4096 + 4096 * n ≤ 2 ^ 32 := (page_succ v n).trans_le hv
      have hneg : ¬ (0 : Int) < 0 := by decide
      obtain ⟨ret, s₁, s', hres, hinv, hgrown', hleft⟩ := ih (i := i + 1) hadded.inv
        (Nat.le_add_right_of_le hbase) hend hrest
      refine ⟨ret, s₁, s', ?_, hinv, hgrown.trans hgrown', hleft⟩
      rw [← hres]
      simp only [he, hpos, if_false, hmap, Option.bind_some, hneg, Nat.cast_add]
      rfl

/-- `memory_alloc_for_page_dir` returns, and the address space grows. A call that fails may leave a
frame taken that nobody uses. -/
theorem memoryAllocForPageDir_grown {size : Nat} (h : MemInv L s live held) (hd : d ∈ live)
    (hperm : perm < 4096) (hrange : FreeRange s.mem d vaddr ((size + 4095) / 4096)) :
    ∃ ret s₁ s', memoryAllocForPageDir s d vaddr size perm = some (ret, s') ∧
      MemInv L s₁ live held ∧ Grown s d s₁ ∧ (s' = s₁ ∨ (ret ≠ 0 ∧ ∃ f, Leaked s₁ f s')) := by
  rw [memoryAllocForPageDir_eq hrange.aligned hrange.lt hrange.size_lt]
  exact allocForPages_grown h hd hperm hrange.user hrange.lt hrange.user hrange.inside
    hrange.unmapped

end StartKernel
