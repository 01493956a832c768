import StartKernel.Proofs.MapPage

/-!
# `StartKernel.Proofs.AllocPages`: the loop of `memory_alloc_for_page_dir`

Each page takes a frame, and the first page of a missing table takes another one for the
table. `framesNeeded` counts the frames for a range of pages. The loop ends in one of four ways
(`allocForPages_cases`):

* there are enough frames, and the whole range is mapped (`RangeMapped`);
* the frames run out in front of a page: the pages before it are mapped, and the result is 0;
* the frames run out between a page and its table: the pages before it are mapped, the frame
  of the page is taken and not used, and the result is `-1`;
* it comes to a page that is mapped already, which stops the kernel.

`allocForPages_enough` is the first way, for a range that is not mapped.
-/

set_option autoImplicit false

namespace StartKernel

open ByteMem (Mem)

variable {L : Layout} {s s' s₂ : MemState} {live held : List Nat}
  {a' : AddrAlloc} {m m' : Mem} {d f i j k n t v w vaddr paddr perm : Nat}

/-! ### How many frames a range needs -/

/-- The indices of the range of `n` pages from `v` on for which the directory has no table. -/
def missing (m : Mem) (d v n : Nat) : Finset Nat :=
  ((Finset.range n).image fun k => pdeIndex (v + 4096 * k)).filter fun i => tableAt m d i = none

/-- The frames that mapping `n` pages from `v` on takes: one for each page and one for each
missing table. -/
def framesNeeded (m : Mem) (d v n : Nat) : Nat := n + (missing m d v n).card

theorem mem_missing :
    i ∈ missing m d v n ↔ (∃ k < n, pdeIndex (v + 4096 * k) = i) ∧ tableAt m d i = none := by
  simp only [missing, Finset.mem_filter, Finset.mem_image, Finset.mem_range]

@[simp] theorem framesNeeded_zero : framesNeeded m d v 0 = 0 := rfl

/-- More pages need more frames. -/
theorem framesNeeded_lt (h : k < n) : framesNeeded m d v k < framesNeeded m d v n := by
  have hsub : missing m d v k ⊆ missing m d v n := by
    intro i hi
    obtain ⟨⟨l, hl, he⟩, hnone⟩ := mem_missing.mp hi
    exact mem_missing.mpr ⟨⟨l, by omega, he⟩, hnone⟩
  have hcard := Finset.card_le_card hsub
  unfold framesNeeded
  omega

/-- A page needs a frame for itself and one for its table at most. -/
theorem framesNeeded_le (m : Mem) (d v n : Nat) : framesNeeded m d v n ≤ 2 * n := by
  have hcard : (missing m d v n).card ≤ n :=
    (Finset.card_filter_le _ _).trans (Finset.card_image_le.trans (Finset.card_range n).le)
  unfold framesNeeded
  omega

/-- The index of a page of the address space. -/
theorem pdeIndex_lt (h : v < 2 ^ 32) : pdeIndex v < 1024 := by
  unfold pdeIndex
  omega

theorem pdeIndex_user (h : 0x80000000 ≤ v) : 512 ≤ pdeIndex v := by
  unfold pdeIndex
  omega

/-- The front part of a range ends where the range ends, or before. -/
theorem range_le (hv : v + 4096 * (n + 1) ≤ 2 ^ 32) (hk : k ≤ n) :
    v + 4096 * (k + 1) ≤ 2 ^ 32 :=
  (Nat.add_le_add_left (Nat.mul_le_mul_left 4096 (Nat.succ_le_succ hk)) v).trans hv

/-- The pages of a range and of its rest. -/
theorem page_succ (v k : Nat) : v + 4096 + 4096 * k = v + 4096 * (k + 1) := by omega

/-- The frames for a range are those for its first page and those for the rest, in a memory
that has the table of the first page. -/
theorem framesNeeded_succ (hv : v + 4096 * (n + 1) ≤ 2 ^ 32)
    (htables : ∀ i < 1024, i ≠ pdeIndex v → tableAt m' d i = tableAt m d i)
    (hfirst : tableAt m' d (pdeIndex v) ≠ none) :
    framesNeeded m d v (n + 1) = framesNeeded m' d (v + 4096) n + 1 +
      if tableAt m d (pdeIndex v) = none then 1 else 0 := by
  -- The tables that are missing for the rest are the missing ones without the first table.
  have hrest : ∀ i, i ∈ missing m' d (v + 4096) n ↔ i ∈ missing m d v (n + 1) ∧ i ≠ pdeIndex v := by
    intro i
    rw [mem_missing, mem_missing]
    constructor
    · rintro ⟨⟨k, hk, rfl⟩, hnone⟩
      have hne : pdeIndex (v + 4096 + 4096 * k) ≠ pdeIndex v := fun he => hfirst (he ▸ hnone)
      refine ⟨⟨⟨k + 1, by omega, by rw [page_succ]⟩, ?_⟩, hne⟩
      rw [← htables _ (pdeIndex_lt (by omega)) hne]
      exact hnone
    · rintro ⟨⟨⟨k, hk, rfl⟩, hnone⟩, hne⟩
      cases k with
      | zero => exact absurd rfl hne
      | succ k =>
        refine ⟨⟨k, by omega, by rw [page_succ]⟩, ?_⟩
        rw [htables _ (pdeIndex_lt (by omega)) hne]
        exact hnone
  have herase : missing m' d (v + 4096) n = (missing m d v (n + 1)).erase (pdeIndex v) := by
    ext i
    rw [Finset.mem_erase, hrest, and_comm]
  have hmem : pdeIndex v ∈ missing m d v (n + 1) ↔ tableAt m d (pdeIndex v) = none := by
    rw [mem_missing]
    exact ⟨And.right, fun hnone => ⟨⟨0, by omega, rfl⟩, hnone⟩⟩
  unfold framesNeeded
  rw [herase]
  by_cases hnone : tableAt m d (pdeIndex v) = none
  · have hpos := Finset.card_pos.mpr ⟨_, hmem.mpr hnone⟩
    rw [if_pos hnone, Finset.card_erase_of_mem (hmem.mpr hnone)]
    omega
  · rw [if_neg hnone, Finset.erase_eq_of_notMem fun hin => hnone (hmem.mp hin)]
    omega

/-! ### A mapped range -/

/-- Two addresses with the same indices lie in the same page. -/
theorem same_page (hi : pdeIndex v = pdeIndex w) (hj : pteIndex v = pteIndex w) :
    v / 4096 = w / 4096 := by
  unfold pdeIndex pteIndex at *
  omega

/-- Two addresses in the same page have the same indices. -/
theorem page_indices (h : v / 4096 = w / 4096) :
    pdeIndex v = pdeIndex w ∧ pteIndex v = pteIndex w := by
  unfold pdeIndex pteIndex
  omega

/-- When only the page of `v` changes, the pages behind it keep their entries. -/
theorem walk_behind {m' : Mem} (hv : v + 4096 * (n + 1) ≤ 2 ^ 32)
    (hother : ∀ i < 1024, ∀ j < 1024, ¬ (i = pdeIndex v ∧ j = pteIndex v) →
      pageAt m' d i j = pageAt m d i j) {k : Nat} (hk : k < n) :
    walk m' d (v + 4096 + 4096 * k) = walk m d (v + 4096 * (k + 1)) := by
  rw [page_succ]
  refine hother _ (pdeIndex_lt (by omega)) _ (pteIndex_lt _) fun hij => ?_
  have hsame := same_page hij.1 hij.2
  omega

/-- The state `s'` after the `n` pages from `v` on were mapped in the directory `d`, each to a
frame that was not taken before. -/
structure RangeMapped (s : MemState) (d v n perm : Nat) (s' : MemState) : Prop where
  touched : TouchedOnly
    (fun g => g = d ∨ ∃ k < n, tableAt s'.mem d (pdeIndex (v + 4096 * k)) = some g) s.mem s'.mem
  pages : ∀ k < n, ∃ f, walk s'.mem d (v + 4096 * k) = some (f ||| perm ||| pteP) ∧
    f % 4096 = 0 ∧ ¬ Taken s.paddrAlloc f
  others : ∀ i < 1024, ∀ j < 1024,
    (∀ k < n, ¬ (i = pdeIndex (v + 4096 * k) ∧ j = pteIndex (v + 4096 * k))) →
    pageAt s'.mem d i j = pageAt s.mem d i j
  tables : ∀ i < 1024, (∀ k < n, i ≠ pdeIndex (v + 4096 * k)) →
    tableAt s'.mem d i = tableAt s.mem d i
  keeps : ∀ i < 1024, ∀ t, tableAt s.mem d i = some t → tableAt s'.mem d i = some t
  taken : ∀ g, Taken s'.paddrAlloc g ↔ Taken s.paddrAlloc g ∨
    ∃ k < n, tableAt s'.mem d (pdeIndex (v + 4096 * k)) = some g ∨
      ∃ e, walk s'.mem d (v + 4096 * k) = some e ∧ ptePaddr e = g
  count : freeCount s.paddrAlloc = freeCount s'.paddrAlloc + framesNeeded s.mem d v n

/-- No page is mapped. -/
theorem rangeMapped_zero (s : MemState) (d v perm : Nat) : RangeMapped s d v 0 perm s where
  touched := ByteMem.AgreeOff.refl _ _
  pages := by simp
  others _ _ _ _ _ := rfl
  tables _ _ _ := rfl
  keeps _ _ _ h := h
  taken g := by simp
  count := by simp

/-- A page that is mapped in front of a mapped range. -/
theorem RangeMapped.cons (ha : Allocated s.paddrAlloc paddr a') (hperm : perm < 4096)
    (hv : v + 4096 * (n + 1) ≤ 2 ^ 32)
    (h₁ : Mapped { s with paddrAlloc := a' } d v (paddr ||| perm ||| pteP) s₂)
    (h₂ : RangeMapped s₂ d (v + 4096) n perm s') : RangeMapped s d v (n + 1) perm s' := by
  have hfirst : tableAt s₂.mem d (pdeIndex v) ≠ none := by
    obtain ⟨t, ht⟩ := tableAt_of_pageAt (h := by rw [← walk, h₁.page]; simp)
    simp [ht]
  obtain ⟨t, ht⟩ := Option.ne_none_iff_exists'.mp hfirst
  have hidx : ∀ k < n + 1, pdeIndex (v + 4096 * k) < 1024 := fun k hk => pdeIndex_lt (by omega)
  have htkeep := h₂.keeps _ (pdeIndex_lt (by omega)) t ht
  -- The first page is not one of the rest, so it keeps its entry.
  have hpage : walk s'.mem d v = some (paddr ||| perm ||| pteP) := by
    rw [← h₁.page]
    refine h₂.others _ (pdeIndex_lt (by omega)) _ (pteIndex_lt v) fun k hk he => ?_
    have hsame := same_page he.1 he.2
    omega
  have hold : ∀ g, Taken s₂.paddrAlloc g ↔
      (Taken s.paddrAlloc g ∨ g = paddr) ∨ tableAt s₂.mem d (pdeIndex v) = some g := by
    intro g
    rw [h₁.taken g]
    simp only [ha.taken g]
  refine ⟨?_, ?_, ?_, ?_, ?_, ?_, ?_⟩
  · refine (h₁.touched.mono fun x hx => ?_).trans (h₂.touched.mono fun x hx => ?_)
    · refine hx.imp id fun hx => ⟨0, by omega, ?_⟩
      rw [ht] at hx
      exact htkeep.trans hx
    · refine hx.imp id fun hx => ?_
      obtain ⟨k, hk, hx⟩ := hx
      exact ⟨k + 1, by omega, by rw [← page_succ]; exact hx⟩
  · intro k hk
    cases k with
    | zero => exact ⟨paddr, hpage, ha.frame.aligned, ha.fresh⟩
    | succ k =>
      obtain ⟨f, hf, hal, hfresh⟩ := h₂.pages k (by omega)
      refine ⟨f, by rw [← page_succ]; exact hf, hal, fun htaken => hfresh ?_⟩
      exact (hold f).mpr (Or.inl (Or.inl htaken))
  · intro i hi j hj hne
    rw [h₂.others i hi j hj fun k hk => by rw [page_succ]; exact hne (k + 1) (by omega)]
    exact h₁.others i hi j hj (hne 0 (by omega))
  · intro i hi hne
    rw [h₂.tables i hi fun k hk => by rw [page_succ]; exact hne (k + 1) (by omega)]
    exact h₁.tables i hi (hne 0 (by omega))
  · intro i hi t' ht'
    refine h₂.keeps i hi t' ?_
    by_cases hii : i = pdeIndex v
    · subst hii
      exact h₁.keeps t' ht'
    · rw [h₁.tables i hi hii]
      exact ht'
  · intro g
    rw [h₂.taken g, hold g]
    constructor
    · rintro (((hg | rfl) | hg) | ⟨k, hk, hg⟩)
      · exact Or.inl hg
      · refine Or.inr ⟨0, by omega, Or.inr ⟨_, hpage, (entry_fields ha.frame.aligned hperm).2.1⟩⟩
      · rw [ht] at hg
        exact Or.inr ⟨0, by omega, Or.inl (htkeep.trans hg)⟩
      · rw [page_succ] at hg
        exact Or.inr ⟨k + 1, by omega, hg⟩
    · rintro (hg | ⟨k, hk, hg⟩)
      · exact Or.inl (Or.inl (Or.inl hg))
      · cases k with
        | zero =>
          rcases hg with hg | ⟨e, he, hg⟩
          · exact Or.inl (Or.inr (ht.trans (htkeep.symm.trans hg)))
          · rw [show v + 4096 * 0 = v by omega, hpage] at he
            obtain rfl := Option.some.inj he
            rw [(entry_fields ha.frame.aligned hperm).2.1] at hg
            exact Or.inl (Or.inl (Or.inr hg.symm))
        | succ k =>
          rw [← page_succ] at hg
          exact Or.inr ⟨k, by omega, hg⟩
  · have hcount₁ : freeCount a' = freeCount s₂.paddrAlloc +
        if tableAt s.mem d (pdeIndex v) = none then 1 else 0 := h₁.count
    have hcount₂ := h₂.count
    rw [framesNeeded_succ (m := s.mem) hv h₁.tables hfirst, ha.count]
    omega

/-! ### The loop -/

/-- One turn of the loop of `memory_alloc_for_page_dir`, at the page `v` of the user half. The page
is added and the loop goes on; or there is no frame; or the frame for the page was the last one
and its table is missing; or the page is mapped already, which stops the kernel. -/
theorem allocForPages_step (h : MemInv L s live held) (hd : d ∈ live) (hperm : perm < 4096)
    (hvaddr : 0x80000000 ≤ vaddr) (hlt : vaddr < 2 ^ 32) (hbase : 0x80000000 ≤ v)
    (hv : v < 2 ^ 32) :
    (walk s.mem d v = none ∧ ∃ p a' s₂, Allocated s.paddrAlloc p a' ∧
      Mapped { s with paddrAlloc := a' } d v (p ||| perm ||| pteP) s₂ ∧ MemInv L s₂ live held ∧
      ∀ n, allocForPages s d vaddr v perm i (n + 1)
        = allocForPages s₂ d vaddr (toU32 ((v + 4096 : Nat) : Int)) perm (i + 1) n) ∨
    (freeCount s.paddrAlloc = 0 ∧
      ∀ n, allocForPages s d vaddr v perm i (n + 1) = some (0, s)) ∨
    (freeCount s.paddrAlloc = 1 ∧ tableAt s.mem d (pdeIndex v) = none ∧
      ∃ p a', Allocated s.paddrAlloc p a' ∧ ∀ n, allocForPages s d vaddr v perm i (n + 1)
        = some (toU32 (-1), { s with paddrAlloc := a' })) ∨
    (walk s.mem d v ≠ none ∧ ∀ n, allocForPages s d vaddr v perm i (n + 1) = none) := by
  rcases allocPage_cases h.shape with ⟨p, a', he, ha⟩ | ⟨he, hzero⟩
  swap
  · refine Or.inr (Or.inl ⟨hzero, fun n => ?_⟩)
    rw [allocForPages]
    simp only [he, if_true]
  have hpos : p ≠ 0 := ha.frame.ne_zero
  have h₁ := h.alloc ha
  have hidx := pdeIndex_lt hv
  have ho : OwnsEntry L live d (pdeIndex v) := ownsEntry_user hd (pdeIndex_user hbase) hidx
  have hk : d = L.kernelPageDir → live = [] := fun hdk =>
    absurd hdk (h.kernel_ne (h.dir_isFrame hd)).symm
  have hnew : Fresh L { s with paddrAlloc := a' } live held p :=
    ⟨(ha.taken p).mpr (Or.inr rfl), h.unused ha.fresh⟩
  have hbelow := ha.frame.below
  -- A mapped page stops the kernel, once it has a frame.
  by_cases hv0 : walk s.mem d v = none
  swap
  · obtain ⟨e, hwalk⟩ := Option.ne_none_iff_exists'.mp hv0
    refine Or.inr (Or.inr (Or.inr ⟨hv0, fun n => ?_⟩))
    rw [allocForPages]
    simp only [he, hpos, if_false, memoryCreateMap_mapped h₁ ho hwalk, Option.bind_none]
  rcases memoryCreateMap_step h₁ ho hk hv0 ha.frame.aligned (by omega) hperm fun _ => hnew with
    ⟨s₂, hmapped, h₂, hstep⟩ | ⟨hnone, hzero, hstep⟩
  · -- The page is mapped, and the loop goes on behind it.
    have hone : memoryCreateMap { s with paddrAlloc := a' } d v p 1 perm = some (0, s₂) := hstep 0
    refine Or.inl ⟨hv0, p, a', s₂, ha, hmapped, h₂, fun n => ?_⟩
    rw [allocForPages]
    simp only [he, hpos, if_false, hone, Option.bind_some, Nat.cast_add]
    rfl
  · -- The error path frees from an address of the user half on, which frees nothing.
    have huser : addrFreePage a' vaddr (i + 1) = a' := addrFreePage_user ha.shape hvaddr hlt
    have hone : freeCount s.paddrAlloc = 1 := ha.count.trans (congrArg (· + 1) hzero)
    refine Or.inr (Or.inr (Or.inl ⟨hone, hnone, p, a', ha, fun n => ?_⟩))
    rw [allocForPages]
    simp only [he, hpos, if_false, hstep 0, Option.bind_some, MemState.freePage, huser]
    rfl

/-- Mapping the first page takes as many free frames as it takes off the need. -/
theorem framesNeeded_after {p e : Nat} (ha : Allocated s.paddrAlloc p a')
    (hmapped : Mapped { s with paddrAlloc := a' } d v e s₂) (hv : v + 4096 * (n + 1) ≤ 2 ^ 32)
    (hk : k ≤ n) : framesNeeded s.mem d v (k + 1) + freeCount s₂.paddrAlloc
      = framesNeeded s₂.mem d (v + 4096) k + freeCount s.paddrAlloc := by
  have hfirst : tableAt s₂.mem d (pdeIndex v) ≠ none := by
    obtain ⟨t, ht⟩ := tableAt_of_pageAt (h := by rw [← walk, hmapped.page]; simp)
    simp [ht]
  have hneed : framesNeeded s.mem d v (k + 1) = framesNeeded s₂.mem d (v + 4096) k + 1 +
      if tableAt s.mem d (pdeIndex v) = none then 1 else 0 :=
    framesNeeded_succ (m := s.mem) (range_le hv hk) hmapped.tables hfirst
  have hcount : freeCount a' = freeCount s₂.paddrAlloc +
      if tableAt s.mem d (pdeIndex v) = none then 1 else 0 := hmapped.count
  rw [hneed, ha.count, hcount]
  omega

/-- The four ways in which the loop of `memory_alloc_for_page_dir` ends. The loop is at the
page `v` of a range of the user half. The induction is on the pages that are left. -/
theorem allocForPages_cases (h : MemInv L s live held) (hd : d ∈ live) (hperm : perm < 4096)
    (hvaddr : 0x80000000 ≤ vaddr) (hlt : vaddr < 2 ^ 32) (hbase : 0x80000000 ≤ v)
    (hv : v + 4096 * n ≤ 2 ^ 32) :
    (framesNeeded s.mem d v n ≤ freeCount s.paddrAlloc ∧
      ∃ s', allocForPages s d vaddr (toU32 v) perm i n = some (0, s') ∧
        RangeMapped s d v n perm s' ∧ MemInv L s' live held) ∨
    (∃ k < n, (∀ l < k, walk s.mem d (v + 4096 * l) = none) ∧
      framesNeeded s.mem d v k = freeCount s.paddrAlloc ∧
      ∃ s', allocForPages s d vaddr (toU32 v) perm i n = some (0, s') ∧
        RangeMapped s d v k perm s' ∧ MemInv L s' live held) ∨
    (∃ k < n, framesNeeded s.mem d v k + 1 = freeCount s.paddrAlloc ∧
      freeCount s.paddrAlloc < framesNeeded s.mem d v (k + 1) ∧
      ∃ s' f a', allocForPages s d vaddr (toU32 v) perm i n
          = some (toU32 (-1), { s' with paddrAlloc := a' }) ∧
        RangeMapped s d v k perm s' ∧ MemInv L s' live held ∧
        Allocated s'.paddrAlloc f a') ∨
    (∃ k < n, walk s.mem d (v + 4096 * k) ≠ none ∧
      allocForPages s d vaddr (toU32 v) perm i n = none) := by
  induction n generalizing s v i with
  | zero => exact Or.inl ⟨by simp, s, rfl, rangeMapped_zero s d v perm, h⟩
  | succ n ih =>
    have hpage : v < 2 ^ 32 := by omega
    rw [toU32_natCast hpage]
    rcases allocForPages_step (i := i) h hd hperm hvaddr hlt hbase hpage with
      ⟨hv0, p, a', s₂, ha, hmapped, h₂, hloop⟩ | ⟨hzero, hres⟩ |
      ⟨hone, hnone, p, a', ha, hres⟩ | ⟨hwalk, hres⟩
    · -- What the rest of the range needs, and what is left for it.
      have hneed : ∀ k ≤ n, framesNeeded s.mem d v (k + 1) + freeCount s₂.paddrAlloc
          = framesNeeded s₂.mem d (v + 4096) k + freeCount s.paddrAlloc := fun k hk =>
        framesNeeded_after ha hmapped hv hk
      have hcons : ∀ {k : Nat} {s' : MemState}, k ≤ n → RangeMapped s₂ d (v + 4096) k perm s' →
          RangeMapped s d v (k + 1) perm s' := fun hk hr =>
        RangeMapped.cons ha hperm (range_le hv hk) hmapped hr
      have hrest : ∀ k < n, walk s₂.mem d (v + 4096 + 4096 * k)
          = walk s.mem d (v + 4096 * (k + 1)) := fun k hk => walk_behind hv hmapped.others hk
      have hend : v + 4096 + 4096 * n ≤ 2 ^ 32 := (page_succ v n).trans_le hv
      rw [hloop]
      rcases ih (i := i + 1) h₂ (Nat.le_add_right_of_le hbase) hend with
        ⟨hle, s', hres, hr, hinv⟩ | ⟨k, hk, hfree, hF, s', hres, hr, hinv⟩ |
        ⟨k, hk, hF, hlt', s', f, a', hres, hr, hinv, hleak⟩ | ⟨k, hk, hwalk, hres⟩
      · left
        have hall := hneed n (Nat.le_refl n)
        exact ⟨by omega, s', hres, hcons (by omega) hr, hinv⟩
      · right
        left
        have hfront := hneed k (by omega)
        refine ⟨k + 1, by omega, fun l hl => ?_, by omega, s', hres, hcons (by omega) hr, hinv⟩
        cases l with
        | zero => exact hv0
        | succ l => rw [← hrest l (by omega)]; exact hfree l (by omega)
      · right
        right
        left
        have hfront := hneed k (by omega)
        have hnext := hneed (k + 1) (by omega)
        exact ⟨k + 1, by omega, by omega, by omega, s', f, a', hres, hcons (by omega) hr, hinv,
          hleak⟩
      · right
        right
        right
        refine ⟨k + 1, by omega, ?_, hres⟩
        rw [← hrest k hk]
        exact hwalk
    · -- No frame is left, which the code reports as success.
      right
      left
      exact ⟨0, by omega, by simp, by simp [hzero], s, hres n, rangeMapped_zero s d v perm, h⟩
    · -- The frame of the page was the last one, and the table is missing.
      right
      right
      left
      refine ⟨0, by omega, by simp [hone], ?_, s, p, a', hres n, rangeMapped_zero s d v perm, h,
        ha⟩
      have hmem : pdeIndex v ∈ missing s.mem d v 1 := mem_missing.mpr ⟨⟨0, by omega, rfl⟩, hnone⟩
      have hpos := Finset.card_pos.mpr ⟨_, hmem⟩
      rw [hone]
      show 1 < 1 + (missing s.mem d v 1).card
      omega
    · right
      right
      right
      exact ⟨0, by omega, hwalk, hres n⟩

/-- With enough frames, the loop maps a range that is not mapped. -/
theorem allocForPages_enough (h : MemInv L s live held) (hd : d ∈ live) (hperm : perm < 4096)
    (hvaddr : 0x80000000 ≤ vaddr) (hlt : vaddr < 2 ^ 32) (hbase : 0x80000000 ≤ v)
    (hv : v + 4096 * n ≤ 2 ^ 32) (hfree : ∀ k < n, walk s.mem d (v + 4096 * k) = none)
    (hframes : framesNeeded s.mem d v n ≤ freeCount s.paddrAlloc) :
    ∃ s', allocForPages s d vaddr (toU32 v) perm i n = some (0, s') ∧
      RangeMapped s d v n perm s' ∧ MemInv L s' live held := by
  rcases allocForPages_cases (i := i) h hd hperm hvaddr hlt hbase hv with
    ⟨-, hall⟩ | ⟨k, hk, -, hF, -⟩ | ⟨k, hk, -, hF, -⟩ | ⟨k, hk, hwalk, -⟩
  · exact hall
  · have hmore := framesNeeded_lt (m := s.mem) (d := d) (v := v) hk
    omega
  · rcases Nat.lt_or_eq_of_le (show k + 1 ≤ n from hk) with hlt' | rfl
    · have hmore := framesNeeded_lt (m := s.mem) (d := d) (v := v) hlt'
      omega
    · omega
  · exact absurd (hfree k hk) hwalk

end StartKernel
