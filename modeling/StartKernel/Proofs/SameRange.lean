import StartKernel.Proofs.AddressSpace

/-!
# `StartKernel.Proofs.SameRange`: the range of the page allocator does not change

Taking and freeing frames changes the bits of the frames, and nothing else in `paddr_alloc`. This
needs no invariant.

* `memoryCreateMap_sameRange`, `createKernelMaps_sameRange`, `memoryCopyUvm_sameRange`,
  `memoryDestroyUvm_sameRange`: each function keeps the range.
* `sameBitmap`: when the same frames are taken, the bitmap is the same.
-/

set_option autoImplicit false

namespace StartKernel

open ByteMem (Mem load32)

variable {L : Layout} {s s' s₁ : MemState} {a a' : AddrAlloc}
  {d f i j n v r paddr perm pte pde cr3 : Nat}

/-- The allocators differ in bits below the bit count only. -/
structure SameRange (a a' : AddrAlloc) : Prop where
  start : a'.start = a.start
  size : a'.size = a.size
  pageSize : a'.pageSize = a.pageSize
  bitCount : a'.bitmap.bitCount = a.bitmap.bitCount
  outside : ∀ i : Nat, a.bitmap.bitCount ≤ i → bitmapGetBit a'.bitmap i = bitmapGetBit a.bitmap i

theorem SameRange.refl (a : AddrAlloc) : SameRange a a := ⟨rfl, rfl, rfl, rfl, fun _ _ => rfl⟩

theorem SameRange.trans {a'' : AddrAlloc} (h : SameRange a a') (h' : SameRange a' a'') :
    SameRange a a'' where
  start := h'.start.trans h.start
  size := h'.size.trans h.size
  pageSize := h'.pageSize.trans h.pageSize
  bitCount := h'.bitCount.trans h.bitCount
  outside i hi := (h'.outside i (h.bitCount.symm ▸ hi)).trans (h.outside i hi)

/-- Bits are set in the bitmap. -/
theorem setBit_sameRange (a : AddrAlloc) (i n : Nat) (bit : Int) :
    SameRange a { a with bitmap := bitmapSetBit a.bitmap i n bit } where
  start := rfl
  size := rfl
  pageSize := rfl
  bitCount := bitmapSetBit_bitCount a.bitmap i n bit
  outside j hj := by
    show bitmapGetBit (bitmapSetBit a.bitmap i n bit) j = _
    rw [bitmapGetBit_set, if_neg (by omega)]

/-! ### The functions of `core/memory.c` -/

theorem allocPage_sameRange (s : MemState) : SameRange s.paddrAlloc s.allocPage.2.paddrAlloc := by
  show SameRange s.paddrAlloc (addrAllocPage s.paddrAlloc 1).2
  unfold addrAllocPage
  rcases bitmapAllocNbits_cases s.paddrAlloc.bitmap 0 1 (Nat.le_refl 1) with ⟨i, -, he⟩ | ⟨-, he⟩
  · rw [he]
    exact setBit_sameRange _ _ _ _
  · rw [he]
    exact SameRange.refl _

theorem freePage_sameRange (s : MemState) (f n : Nat) :
    SameRange s.paddrAlloc (s.freePage f n).paddrAlloc :=
  setBit_sameRange _ _ _ _

theorem findPte_sameRange (s : MemState) (d v : Nat) (alloc : Bool) :
    SameRange s.paddrAlloc (findPte s d v alloc).2.paddrAlloc := by
  have halloc := allocPage_sameRange s
  unfold findPte
  simp only
  split
  · exact SameRange.refl _
  · split
    · exact SameRange.refl _
    · split
      · exact halloc
      · exact halloc

theorem memoryCreateMap_sameRange {r : Int}
    (he : memoryCreateMap s d v paddr n perm = some (r, s')) :
    SameRange s.paddrAlloc s'.paddrAlloc := by
  induction n generalizing s v paddr with
  | zero =>
    obtain ⟨-, rfl⟩ := Prod.mk.inj (Option.some.inj he)
    exact SameRange.refl _
  | succ n ih =>
    have hfind := findPte_sameRange s d v true
    rw [memoryCreateMap] at he
    cases hs : findPte s d v true with
    | mk pte s₁ =>
      rw [hs] at he hfind
      have hrange : SameRange s.paddrAlloc s₁.paddrAlloc := hfind
      simp only at he
      split at he
      · obtain ⟨-, rfl⟩ := Prod.mk.inj (Option.some.inj he)
        exact hrange
      · split at he
        · cases he
        · exact hrange.trans (ih (s := s₁.store pte (paddr ||| perm ||| pteP)) he)

theorem createKernelMaps_sameRange {maps : List MemoryMap}
    (he : createKernelMaps L s maps = some s') : SameRange s.paddrAlloc s'.paddrAlloc := by
  induction maps generalizing s with
  | nil =>
    obtain rfl := Option.some.inj he
    exact SameRange.refl _
  | cons map maps ih =>
    obtain ⟨⟨r, s₁⟩, hr, he⟩ := Option.bind_eq_some_iff.mp he
    exact (memoryCreateMap_sameRange hr).trans (ih he)

theorem memoryCreateUvm_sameRange (L : Layout) (s : MemState) :
    SameRange s.paddrAlloc (memoryCreateUvm L s).2.paddrAlloc := by
  have halloc := allocPage_sameRange s
  unfold memoryCreateUvm
  simp only
  split
  · exact halloc
  · exact halloc

theorem freePages_sameRange (s : MemState) (pte n : Nat) :
    SameRange s.paddrAlloc (freePages s pte n).paddrAlloc := by
  induction n generalizing s pte with
  | zero => exact SameRange.refl _
  | succ n ih =>
    unfold freePages
    split
    · exact (freePage_sameRange s _ 1).trans (ih _ _)
    · exact ih s _

theorem freeTables_sameRange (s : MemState) (pde n : Nat) :
    SameRange s.paddrAlloc (freeTables s pde n).paddrAlloc := by
  induction n generalizing s pde with
  | zero => exact SameRange.refl _
  | succ n ih =>
    unfold freeTables
    split
    · exact ((freePages_sameRange s _ pteCnt).trans (freePage_sameRange _ _ 1)).trans (ih _ _)
    · exact ih s _

theorem memoryDestroyUvm_sameRange (he : memoryDestroyUvm s d = some s') :
    SameRange s.paddrAlloc s'.paddrAlloc := by
  unfold memoryDestroyUvm at he
  simp only at he
  split at he
  · cases he
  · obtain rfl := Option.some.inj he
    exact (freeTables_sameRange s _ _).trans (freePage_sameRange _ d 1)

theorem copyPages_sameRange {ok : Bool} (he : copyPages cr3 s d pte i j n = some (ok, s')) :
    SameRange s.paddrAlloc s'.paddrAlloc := by
  induction n generalizing s pte j with
  | zero =>
    obtain ⟨-, rfl⟩ := Prod.mk.inj (Option.some.inj he)
    exact SameRange.refl _
  | succ n ih =>
    have halloc := allocPage_sameRange s
    rw [copyPages] at he
    split at he
    swap
    · exact ih he
    simp only at he
    split at he
    · obtain ⟨-, rfl⟩ := Prod.mk.inj (Option.some.inj he)
      exact halloc
    obtain ⟨⟨err, s₁⟩, hmap, he⟩ := Option.bind_eq_some_iff.mp he
    have hrange := halloc.trans (memoryCreateMap_sameRange hmap)
    simp only at he
    split at he
    · obtain ⟨-, rfl⟩ := Prod.mk.inj (Option.some.inj he)
      exact hrange
    obtain ⟨m, -, he⟩ := Option.bind_eq_some_iff.mp he
    exact hrange.trans (ih (s := { s₁ with mem := m }) he)

theorem copyTables_sameRange {ok : Bool} (he : copyTables cr3 s d pde i n = some (ok, s')) :
    SameRange s.paddrAlloc s'.paddrAlloc := by
  induction n generalizing s pde i with
  | zero =>
    obtain ⟨-, rfl⟩ := Prod.mk.inj (Option.some.inj he)
    exact SameRange.refl _
  | succ n ih =>
    rw [copyTables] at he
    split at he
    swap
    · exact ih he
    obtain ⟨⟨ok₁, s₁⟩, hpages, he⟩ := Option.bind_eq_some_iff.mp he
    have hrange := copyPages_sameRange hpages
    simp only at he
    split at he
    · obtain ⟨-, rfl⟩ := Prod.mk.inj (Option.some.inj he)
      exact hrange
    · exact hrange.trans (ih he)

theorem memoryCopyUvm_sameRange (he : memoryCopyUvm L cr3 s d = some (r, s')) :
    SameRange s.paddrAlloc s'.paddrAlloc := by
  have hcreate := memoryCreateUvm_sameRange L s
  unfold memoryCopyUvm at he
  simp only at he
  split at he
  · obtain ⟨-, rfl⟩ := Prod.mk.inj (Option.some.inj he)
    exact hcreate
  obtain ⟨⟨ok, s₁⟩, htables, he⟩ := Option.bind_eq_some_iff.mp he
  have hrange := hcreate.trans (copyTables_sameRange htables)
  simp only at he
  split at he
  · obtain ⟨-, rfl⟩ := Prod.mk.inj (Option.some.inj he)
    exact hrange
  · obtain ⟨s₂, hdestroy, he⟩ := Option.map_eq_some_iff.mp he
    obtain ⟨-, rfl⟩ := Prod.mk.inj he
    exact hrange.trans (memoryDestroyUvm_sameRange hdestroy)

theorem allocForPages_sameRange {vaddr : Nat}
    (he : allocForPages s d vaddr v perm i n = some (r, s')) :
    SameRange s.paddrAlloc s'.paddrAlloc := by
  induction n generalizing s v i with
  | zero =>
    obtain ⟨-, rfl⟩ := Prod.mk.inj (Option.some.inj he)
    exact SameRange.refl _
  | succ n ih =>
    have halloc := allocPage_sameRange s
    rw [allocForPages] at he
    simp only at he
    split at he
    · obtain ⟨-, rfl⟩ := Prod.mk.inj (Option.some.inj he)
      exact halloc
    obtain ⟨⟨err, s₁⟩, hmap, he⟩ := Option.bind_eq_some_iff.mp he
    have hrange := halloc.trans (memoryCreateMap_sameRange hmap)
    simp only at he
    split at he
    · obtain ⟨-, rfl⟩ := Prod.mk.inj (Option.some.inj he)
      exact hrange.trans (freePage_sameRange s₁ _ _)
    · exact hrange.trans (ih he)

/-! ### Frames and bits -/

/-- The frame of an index of the bitmap. -/
def AddrAlloc.frame (a : AddrAlloc) (i : Nat) : Nat := a.start + i * a.pageSize

/-- A frame is taken when its bit is set. -/
theorem taken_frame (h : PallocShape a) (hi : (i : Int) < a.bitmap.bitCount) :
    Taken a (a.frame i) ↔ bitmapGetBit a.bitmap i = 1 := by
  have hpos : 0 < a.pageSize := by
    rw [h.pageSize]
    decide
  constructor
  · rintro ⟨j, -, hj, hbit⟩
    unfold AddrAlloc.frame at hj
    obtain rfl : i = j := Nat.eq_of_mul_eq_mul_right hpos (Nat.add_left_cancel hj)
    exact hbit
  · exact fun hbit => ⟨i, hi, rfl, hbit⟩

theorem SameRange.frame (h : SameRange a a') (i : Nat) : a'.frame i = a.frame i := by
  unfold AddrAlloc.frame
  rw [h.start, h.pageSize]

/-- A bit below the bit count is the same when its frame is taken in both or in none. -/
theorem SameRange.bit (h : SameRange a a') (ha : PallocShape a) (ha' : PallocShape a')
    (hi : (i : Int) < a.bitmap.bitCount) (hf : Taken a' (a.frame i) ↔ Taken a (a.frame i)) :
    bitmapGetBit a'.bitmap i = bitmapGetBit a.bitmap i := by
  rw [← h.frame, taken_frame ha' (h.bitCount.symm ▸ hi), h.frame, taken_frame ha hi] at hf
  have hbit := bitmapGetBit_cases a.bitmap i
  have hbit' := bitmapGetBit_cases a'.bitmap i
  omega

/-- A bit is new when its frame is: it is below the bit count, and the frame was free. -/
theorem SameRange.newBit (h : SameRange a a') (ha : PallocShape a) (ha' : PallocShape a') :
    (bitmapGetBit a.bitmap i = 0 ∧ bitmapGetBit a'.bitmap i = 1) ↔
      (i : Int) < a.bitmap.bitCount ∧ ¬ Taken a (a.frame i) ∧ Taken a' (a.frame i) := by
  by_cases hi : (i : Int) < a.bitmap.bitCount
  · rw [taken_frame ha hi, ← h.frame, taken_frame ha' (h.bitCount.symm ▸ hi)]
    have hbit := bitmapGetBit_cases a.bitmap i
    omega
  · -- Behind the bit count no bit changes.
    have hsame := h.outside i (by omega)
    omega

/-- When the same frames are taken, the bitmap is the same, bit for bit. -/
theorem SameRange.sameBitmap (h : SameRange a a') (ha : PallocShape a) (ha' : PallocShape a') :
    a'.bitmap = a.bitmap ↔ ∀ f, Taken a' f ↔ Taken a f := by
  constructor
  · intro hb f
    unfold Taken
    rw [hb, h.start, h.pageSize]
  · intro htaken
    have hbits : ∀ i, bitmapGetBit a'.bitmap i = bitmapGetBit a.bitmap i := by
      intro i
      by_cases hi : (i : Int) < a.bitmap.bitCount
      · exact h.bit ha ha' hi (htaken _)
      · exact h.outside i (by omega)
    exact bitmap_ext h.bitCount hbits

end StartKernel
