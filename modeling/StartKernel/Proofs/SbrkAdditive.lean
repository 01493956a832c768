import StartKernel.Proofs.AllocRegion
import StartKernel.Proofs.SameRange
import StartKernel.Proofs.Sbrk

/-!
# `StartKernel.Proofs.SbrkAdditive`: two calls of `sys_sbrk` and one

Growing the heap by `a` and then by `b` ends in the very state that growing it by `a + b` ends
in. The loop over `n + m` pages is the loop over `n` pages and then over `m` pages
(`allocForPages_append`), and the pages of the two calls are the pages of the one call
(`heapPages_add`).

* `sysSbrk_add`: both ways end in one state, and the pages that are new in it are those from the
  old heap end to the new one, both rounded up.
-/

set_option autoImplicit false

namespace StartKernel

variable {L : Layout} {s s' s₁ : MemState} {live held : List Nat}
  {d c i j n m v vaddr vaddr' perm heapEnd a b : Nat}

/-! ### The loop in two parts -/

/-- The start of the range and the index of the page matter only for an error. -/
theorem allocForPages_index (h : allocForPages s d vaddr c perm i n = some (0, s')) :
    allocForPages s d vaddr' c perm j n = some (0, s') := by
  induction n generalizing s c i j with
  | zero => exact h
  | succ n ih =>
    rw [allocForPages] at h ⊢
    simp only at h ⊢
    -- Without a frame both loops return 0 at once.
    split at h
    · rename_i hzero
      rw [if_pos hzero]
      exact h
    · rename_i hpos
      rw [if_neg hpos]
      obtain ⟨⟨err, s₁⟩, hmap, hrest⟩ := Option.bind_eq_some_iff.mp h
      rw [hmap, Option.bind_some]
      simp only at hrest ⊢
      split at hrest
      · -- The error is not 0.
        simp [toU32] at hrest
      · rename_i herr
        rw [if_neg herr]
        exact ih hrest

/-- A step of the loop keeps the shape of the allocator. -/
theorem PallocShape.of_sameRange {a a' : AddrAlloc} (h : PallocShape a) (hr : SameRange a a') :
    PallocShape a' where
  start := hr.start.trans h.start
  pageSize := hr.pageSize.trans h.pageSize
  whole := by
    rw [hr.size]
    exact h.whole
  bitCount := by
    rw [hr.bitCount, hr.size]
    exact h.bitCount
  fits := by
    rw [hr.start, hr.size]
    exact h.fits

/-- The page `n` behind the second one is the page `n + 1`. -/
theorem page_of_succ (c n : Nat) :
    ((c + 4096) % 2 ^ 32 + 4096 * n) % 2 ^ 32 = (c + 4096 * (n + 1)) % 2 ^ 32 := by
  omega

/-- The loop over `n + m` pages is the loop over `n` pages and then over `m` pages, when there is
a frame left for the second part. The induction is on the first part. -/
theorem allocForPages_append (hshape : PallocShape s.paddrAlloc) (hc : c < 2 ^ 32)
    (h : allocForPages s d vaddr c perm i n = some (0, s₁)) (hfree : freeCount s₁.paddrAlloc ≠ 0) :
    allocForPages s d vaddr c perm i (n + m)
      = allocForPages s₁ d vaddr ((c + 4096 * n) % 2 ^ 32) perm (i + n) m := by
  induction n generalizing s c i with
  | zero =>
    obtain ⟨-, rfl⟩ := Prod.mk.inj (Option.some.inj h)
    rw [Nat.zero_add, Nat.mul_zero, Nat.add_zero, Nat.add_zero, Nat.mod_eq_of_lt hc]
  | succ n ih =>
    rw [Nat.add_right_comm, allocForPages]
    rw [allocForPages] at h
    rcases allocPage_cases hshape with ⟨p, a', he, ha⟩ | ⟨he, hzero⟩
    · have hpos : p ≠ 0 := ha.frame.ne_zero
      simp only [he, hpos, if_false] at h ⊢
      obtain ⟨⟨err, s₂⟩, hmap, hrest⟩ := Option.bind_eq_some_iff.mp h
      simp only [hmap, Option.bind_some] at hrest ⊢
      split at hrest
      · -- The error is not 0.
        simp [toU32] at hrest
      · rename_i herr
        have hnext : toU32 ((c : Int) + memPageSize) = (c + 4096) % 2 ^ 32 := by
          unfold toU32 memPageSize
          omega
        have hshape₂ := ha.shape.of_sameRange (memoryCreateMap_sameRange hmap)
        rw [if_neg herr, ih hshape₂ (by rw [hnext]; omega) hrest, hnext, page_of_succ,
          Nat.add_assoc i 1 n, Nat.add_comm 1 n]
    · -- Without a frame the first part ends in the state it starts in.
      simp only [he, if_true] at h
      obtain ⟨-, rfl⟩ := Prod.mk.inj (Option.some.inj h)
      exact absurd hzero hfree

/-! ### The pages of two calls -/

/-- The heap end after a call, rounded up. -/
theorem heapFirst_add (heapEnd a : Nat) :
    heapFirst (heapEnd + a) = heapFirst heapEnd + 4096 * heapPages heapEnd a := by
  unfold heapPages heapFirst
  omega

/-- The pages of two calls are the pages of one. -/
theorem heapPages_add (heapEnd a b : Nat) :
    heapPages heapEnd (a + b) = heapPages heapEnd a + heapPages (heapEnd + a) b := by
  unfold heapPages heapFirst
  omega

/-- A call whose loop returns 0 grows the heap. -/
theorem sysSbrk_of_alloc (hbase : 0x80000000 ≤ heapEnd) (ha : a < 2 ^ 31)
    (hfits : heapEnd + a < 2 ^ 32)
    (h : allocForPages s d (heapFirst heapEnd) (toU32 (heapFirst heapEnd)) heapPerm 0
      (heapPages heapEnd a) = some (0, s')) :
    sysSbrk d s heapEnd a = some (heapEnd, heapEnd + a, s') := by
  have hzero : toInt ((0 : Nat) : Int) = 0 := by decide
  rw [sysSbrk_eq hbase ha hfits]
  by_cases hpages : heapPages heapEnd a = 0
  · rw [hpages] at h
    obtain ⟨-, rfl⟩ := Prod.mk.inj (Option.some.inj h)
    rw [if_pos hpages]
  · rw [if_neg hpages, sbrk_alloc ha hfits hpages, h]
    simp only [Option.map_some, Option.bind_some, hzero, lt_irrefl, if_false]

/-- The two loops of two calls, and the loop of one. -/
theorem heap_alloc_add (h : MemInv L s live held) (hd : d ∈ live)
    (hbase : 0x80000000 ≤ heapEnd) (hfits : heapEnd + (a + b) + 4096 ≤ 2 ^ 32)
    (hfree : ∀ k < heapPages heapEnd (a + b),
      walk s.mem d (heapFirst heapEnd + 4096 * k) = none)
    (hframes : framesNeeded s.mem d (heapFirst heapEnd) (heapPages heapEnd (a + b))
      ≤ freeCount s.paddrAlloc) :
    ∃ s₁ s', RangeMapped s d (heapFirst heapEnd) (heapPages heapEnd (a + b)) heapPerm s' ∧
      allocForPages s d (heapFirst heapEnd) (toU32 (heapFirst heapEnd)) heapPerm 0
        (heapPages heapEnd (a + b)) = some (0, s') ∧
      allocForPages s d (heapFirst heapEnd) (toU32 (heapFirst heapEnd)) heapPerm 0
        (heapPages heapEnd a) = some (0, s₁) ∧
      allocForPages s₁ d (heapFirst (heapEnd + a)) (toU32 (heapFirst (heapEnd + a))) heapPerm 0
        (heapPages (heapEnd + a) b) = some (0, s') := by
  have hperm : heapPerm < 4096 := by decide
  have hlow := hbase.trans (le_heapFirst heapEnd)
  have hinside : heapFirst heapEnd + 4096 * heapPages heapEnd (a + b) ≤ 2 ^ 32 :=
    heapPages_inside (by omega)
  have hlt : heapFirst heapEnd < 2 ^ 32 := by
    unfold heapFirst
    omega
  have hlt' : heapFirst (heapEnd + a) < 2 ^ 32 := by
    unfold heapFirst
    omega
  rw [toU32_natCast hlt, toU32_natCast hlt']
  have hsecond := heapFirst_add heapEnd a
  rw [heapPages_add] at hfree hframes hinside ⊢
  generalize heapPages heapEnd a = n at *
  generalize heapPages (heapEnd + a) b = m at *
  -- The whole loop and its first part both have their frames.
  obtain ⟨s', hall, hr, -⟩ := allocForPages_enough (i := 0) h hd hperm hlow hlt hlow hinside hfree
    hframes
  rw [toU32_natCast hlt] at hall
  by_cases hm : m = 0
  · -- The second call stays in its page, so the first one maps everything.
    subst hm
    exact ⟨s', s', hr, hall, hall, rfl⟩
  have hneed := framesNeeded_lt (m := s.mem) (d := d) (v := heapFirst heapEnd)
    (Nat.lt_add_of_pos_right (n := n) (Nat.pos_of_ne_zero hm))
  obtain ⟨s₁, hfirst, hr₁, -⟩ := allocForPages_enough (i := 0) h hd hperm hlow hlt hlow
    (by omega) (fun k hk => hfree k (by omega)) (hneed.le.trans hframes)
  rw [toU32_natCast hlt] at hfirst
  -- The first part uses fewer frames than the whole, so one is left behind it.
  have hleft : freeCount s₁.paddrAlloc ≠ 0 := by
    have hcount := hr₁.count
    omega
  refine ⟨s₁, s', hr, hall, hfirst, ?_⟩
  rw [allocForPages_append h.shape hlt hfirst hleft, ← hsecond, Nat.mod_eq_of_lt hlt'] at hall
  exact allocForPages_index hall

/-- The heap pages behind `heapEnd` are not mapped, and there are frames to grow the heap by
`incr`. -/
structure HeapRoom (s : MemState) (d heapEnd incr : Nat) : Prop where
  unmapped : ∀ p, heapFirst heapEnd ≤ p → p < heapFirst (heapEnd + incr) → walk s.mem d p = none
  frames : framesNeeded s.mem d (heapFirst heapEnd) (heapPages heapEnd incr)
    ≤ freeCount s.paddrAlloc

/-- Growing the heap by `a` and then by `b` ends in the state that growing it by `a + b` ends
in, and no call stops the kernel. The pages that are new in it are those from the old heap end
to the new one, both rounded up. -/
theorem sysSbrk_add (h : InSpace L s d) (hbase : 0x80000000 ≤ heapEnd)
    (hincr : a + b + 4096 ≤ 2 ^ 31 - 1) (hfits : heapEnd + a + b + 4096 ≤ 2 ^ 32)
    (hroom : HeapRoom s d heapEnd (a + b)) :
    ∃ s₁ s', sysSbrk d s heapEnd ((a + b : Nat) : Int) = some (heapEnd, heapEnd + a + b, s') ∧
      sysSbrk d s heapEnd a = some (heapEnd, heapEnd + a, s₁) ∧
      sysSbrk d s₁ (heapEnd + a) b = some (heapEnd + a, heapEnd + a + b, s') ∧
      ∀ p < 2 ^ 32, (heapFirst heapEnd ≤ p ∧ p < heapFirst (heapEnd + a + b) →
          walk s.mem d p = none ∧ walk s'.mem d p ≠ none) ∧
        (¬ (heapFirst heapEnd ≤ p ∧ p < heapFirst (heapEnd + a + b)) →
          walk s'.mem d p = walk s.mem d p) := by
  obtain ⟨live, held, hinv, hd⟩ := h
  have hlast := heapFirst_add heapEnd (a + b)
  rw [← Nat.add_assoc] at hlast
  have hfree : ∀ k < heapPages heapEnd (a + b),
      walk s.mem d (heapFirst heapEnd + 4096 * k) = none := by
    intro k hk
    exact hroom.unmapped _ (by omega) (by rw [← Nat.add_assoc]; omega)
  obtain ⟨s₁, s', hr, hall, hfirst, hsecond⟩ := heap_alloc_add hinv hd hbase (by omega) hfree
    hroom.frames
  refine ⟨s₁, s', ?_, ?_, ?_, fun p hp => ⟨fun hin => ⟨?_, ?_⟩, fun hout => ?_⟩⟩
  · rw [sysSbrk_of_alloc hbase (by omega) (by omega) hall, Nat.add_assoc]
  · exact sysSbrk_of_alloc hbase (by omega) (by omega) hfirst
  · exact sysSbrk_of_alloc (by omega) (by omega) (by omega) hsecond
  · exact hroom.unmapped p hin.1 (by rw [← Nat.add_assoc]; exact hin.2)
  · -- The page of `p` is one of those that the loop mapped.
    have hal := heapFirst_aligned heapEnd
    obtain ⟨f, hf, -⟩ := hr.pages ((p - heapFirst heapEnd) / 4096) (by omega)
    rw [walk_page (w := p) (by omega)] at hf
    simp [hf]
  · -- A page of the loop starts inside the range and ends there.
    have hal := heapFirst_aligned heapEnd
    refine hr.others _ (pdeIndex_lt hp) _ (pteIndex_lt p) fun k hk hij => hout ?_
    have hsame := same_page hij.1 hij.2
    omega

/-- The first call ends inside a page, the second one in the next page. -/
theorem sysSbrk_add_two_pages :
    ∃ s₁ s', sysSbrk 0x100000 (oneSpace 4) 0x80000000 ((100 + 5000 : Nat) : Int)
          = some (0x80000000, 0x80000000 + 100 + 5000, s') ∧
      sysSbrk 0x100000 (oneSpace 4) 0x80000000 (100 : Nat)
          = some (0x80000000, 0x80000000 + 100, s₁) ∧
      sysSbrk 0x100000 s₁ (0x80000000 + 100) (5000 : Nat)
          = some (0x80000000 + 100, 0x80000000 + 100 + 5000, s') ∧
      ∀ p < 2 ^ 32, (heapFirst 0x80000000 ≤ p ∧ p < heapFirst (0x80000000 + 100 + 5000) →
          walk (oneSpace 4).mem 0x100000 p = none ∧ walk s'.mem 0x100000 p ≠ none) ∧
        (¬ (heapFirst 0x80000000 ≤ p ∧ p < heapFirst (0x80000000 + 100 + 5000)) →
          walk s'.mem 0x100000 p = walk (oneSpace 4).mem 0x100000 p) :=
  sysSbrk_add (L := smallLayout)
    ⟨_, _, oneSpace_inv (by decide) (by decide), List.mem_singleton_self _⟩
    (by decide) (by decide) (by decide) ⟨fun _ _ _ => walk_clear _ _, by decide +kernel⟩

end StartKernel
