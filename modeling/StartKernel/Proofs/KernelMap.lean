import StartKernel.Proofs.AllocForPageDir
import StartKernel.Proofs.MemoryInit
import StartKernel.Proofs.SameRange

/-!
# `StartKernel.Proofs.KernelMap`: the kernel reaches the frames it hands out

The kernel writes to a frame at its physical address, so the page has to be mapped to itself in
`kernel_page_dir`. `create_kernel_table` maps memory up to `MEM_EXT_END`, whatever the size of
the memory is.

* `Balance`: the frames that `create_kernel_table` takes are the tables of the kernel.
* `createKernelMaps_cut`: a larger allocator gives the kernel the same tables.
* `createKernelTable_rows`: 32 frames are enough for all ranges.
* `framesMapped_iff`: all frames are mapped to themselves exactly when the managed range ends at
  `MEM_EXT_END` or before.
-/

set_option autoImplicit false

namespace StartKernel

open ByteMem (Mem load32)
open FirstFit (Fits First)

variable {L : Layout} {s s' s₁ : MemState} {a a' : AddrAlloc} {m : Mem} {bootInfo : BootInfo}
  {c d e f i k n v paddr perm pte : Nat}

/-! ### Tables of the kernel -/

/-- The allocator manages the range that `memory_init` computes. -/
theorem memoryInit_sameRange (he : memoryInit L bootInfo m = some s) :
    SameRange (bootState L bootInfo m).paddrAlloc s.paddrAlloc := by
  rw [memoryInit_eq] at he
  split at he
  · exact (createKernelMaps_sameRange (s := ⟨_, (bootState L bootInfo m).paddrAlloc⟩) he :)
  · cases he

/-- The indices for which `kernel_page_dir` has a table. -/
def kernelTables (L : Layout) (m : Mem) : Finset Nat :=
  (Finset.range 1024).filter fun i => tableAt m L.kernelPageDir i ≠ none

theorem mem_kernelTables :
    i ∈ kernelTables L m ↔ i < 1024 ∧ tableAt m L.kernelPageDir i ≠ none := by
  rw [kernelTables, Finset.mem_filter, Finset.mem_range]

/-- The free frames and the tables of the kernel are `n` frames. -/
def Balance (L : Layout) (n : Nat) (s : MemState) : Prop :=
  freeCount s.paddrAlloc + (kernelTables L s.mem).card = n

/-- A page that is mapped takes a free frame exactly when it needs a new table. -/
theorem Mapped.balance (h : Mapped s L.kernelPageDir v e s') (hv : v < 2 ^ 32)
    (hb : Balance L n s) : Balance L n s' := by
  have hidx := pdeIndex_lt hv
  have htable : tableAt s'.mem L.kernelPageDir (pdeIndex v) ≠ none := by
    obtain ⟨t, ht⟩ := tableAt_of_pageAt (h := by
      rw [← walk, h.page]
      exact Option.some_ne_none e)
    rw [ht]
    exact Option.some_ne_none t
  -- The tables afterwards are those from before and the one of the page.
  have htables : kernelTables L s'.mem = insert (pdeIndex v) (kernelTables L s.mem) := by
    ext i
    rw [Finset.mem_insert, mem_kernelTables, mem_kernelTables]
    by_cases hi : i = pdeIndex v
    · subst hi
      simp [hidx, htable]
    · simp only [hi, false_or]
      exact and_congr_right fun hlt => by rw [h.tables i hlt hi]
  have hcount := h.count
  unfold Balance at hb ⊢
  rw [htables]
  by_cases hnone : tableAt s.mem L.kernelPageDir (pdeIndex v) = none
  · have hnew : pdeIndex v ∉ kernelTables L s.mem := fun hi => (mem_kernelTables.mp hi).2 hnone
    rw [if_pos hnone] at hcount
    rw [Finset.card_insert_of_notMem hnew]
    omega
  · have hold : pdeIndex v ∈ kernelTables L s.mem := mem_kernelTables.mpr ⟨hidx, hnone⟩
    rw [if_neg hnone] at hcount
    rw [Finset.insert_eq_of_mem hold]
    omega

/-- A table holds 1024 pages. -/
theorem pdeIndex_below (h : v / 4096 < 1024 * c) : pdeIndex v < c := by
  unfold pdeIndex
  omega

/-- The kernel has tables for indices below `c` only. -/
def TablesBelow (L : Layout) (m : Mem) (c : Nat) : Prop :=
  ∀ i < 1024, tableAt m L.kernelPageDir i ≠ none → i < c

/-- With an index that has no table, there are fewer tables than indices. -/
theorem TablesBelow.card_lt (h : TablesBelow L m c) (hi : i < c)
    (hnone : tableAt m L.kernelPageDir i = none) : (kernelTables L m).card < c := by
  have hsub : kernelTables L m ⊆ (Finset.range c).erase i := by
    intro j hj
    obtain ⟨hlt, ht⟩ := mem_kernelTables.mp hj
    refine Finset.mem_erase.mpr ⟨?_, Finset.mem_range.mpr (h j hlt ht)⟩
    rintro rfl
    exact ht hnone
  have hcard := Finset.card_le_card hsub
  rw [Finset.card_erase_of_mem (Finset.mem_range.mpr hi), Finset.card_range] at hcard
  omega

/-- An allocator without set bits has all its frames free. -/
theorem freeCount_clear (hzero : ∀ i < a.pages, bitmapGetBit a.bitmap i = 0) :
    freeCount a = a.pages := by
  unfold freeCount
  rw [Finset.filter_true_of_mem fun i hi => hzero i (Finset.mem_range.mp hi), Finset.card_range]

/-- In front of the loop of `create_kernel_table` the kernel has no tables. -/
theorem kernelTables_clear (m : Mem) :
    kernelTables L (kernelMemset m L.kernelPageDir 0 (4 * pdeCnt)) = ∅ := by
  refine Finset.eq_empty_of_forall_notMem fun i hi => ?_
  obtain ⟨hlt, ht⟩ := mem_kernelTables.mp hi
  exact ht (clear_kernelPageDir L m i hlt)

/-- There, the free frames alone make up the balance. -/
theorem balance_clear (m : Mem) (hmem : s.mem = kernelMemset m L.kernelPageDir 0 (4 * pdeCnt)) :
    Balance L (freeCount s.paddrAlloc) s := by
  unfold Balance
  rw [hmem, kernelTables_clear, Finset.card_empty, Nat.add_zero]

/-! ### A larger allocator -/

/-- The allocator with its first `n` frames only. -/
def AddrAlloc.cut (a : AddrAlloc) (n : Nat) : AddrAlloc :=
  { a with bitmap := { a.bitmap with bitCount := n }, size := n * memPageSize }

/-- The state with the first `n` frames only. -/
def MemState.cut (s : MemState) (n : Nat) : MemState :=
  { s with paddrAlloc := s.paddrAlloc.cut n }

theorem cut_mem (s : MemState) (n : Nat) : (s.cut n).mem = s.mem := rfl

/-- The first frames of an allocator that `memory_init` sets up. -/
theorem cut_shape (hstart : a.start = memExtStart) (hpage : a.pageSize = memPageSize)
    (hn : n ≤ 32512) : PallocShape (a.cut n) := by
  refine ⟨hstart, hpage, ?_, ?_, ?_⟩
  · show n * memPageSize % memPageSize = 0
    exact Nat.mul_mod_left n memPageSize
  · show (n : Int) = (n * memPageSize / memPageSize : Nat)
    rw [Nat.mul_div_cancel n (by decide)]
  · show a.start + n * memPageSize ≤ memExtEnd + 1
    rw [hstart]
    unfold memExtStart memPageSize memExtEnd
    omega

theorem cut_getBit (a : AddrAlloc) (n i : Nat) :
    bitmapGetBit (a.cut n).bitmap i = bitmapGetBit a.bitmap i := by
  unfold bitmapGetBit
  rfl

/-- One bit is set, whatever the bit count is. -/
theorem bitmapSetBit_cut {b : Bitmap} (hi : (i : Int) < n) (hn : (n : Int) ≤ b.bitCount)
    (bit : Int) : bitmapSetBit { b with bitCount := n } i 1 bit
      = { bitmapSetBit b i 1 bit with bitCount := n } := by
  unfold bitmapSetBit
  rw [if_pos (by exact hi), if_pos (by omega)]
  rfl

/-- The first free frame is the same, if the smaller allocator has one. -/
theorem addrAllocPage_cut (hn : (n : Int) ≤ a.bitmap.bitCount)
    (hf : (addrAllocPage (a.cut n) 1).1 ≠ 0) :
    addrAllocPage (a.cut n) 1 = ((addrAllocPage a 1).1, (addrAllocPage a 1).2.cut n) := by
  rcases bitmapAllocNbits_cases (a.cut n).bitmap 0 1 (Nat.le_refl 1) with ⟨i, hi, he⟩ | ⟨-, he⟩
  swap
  · unfold addrAllocPage at hf
    rw [he] at hf
    exact absurd rfl hf
  have hi : First (Agrees a.bitmap 0) n 1 i := hi
  have hlt : i < n := by
    have hinside := hi.inside
    omega
  have hfirst : First (Agrees a.bitmap 0) a.bitmap.bitCount.toNat 1 i := hi.mono (by omega)
  rcases bitmapAllocNbits_cases a.bitmap 0 1 (Nat.le_refl 1) with ⟨i', hi', he'⟩ | ⟨hno, -⟩
  swap
  · exact absurd hfirst.toFits (hno i)
  obtain rfl : i' = i := hi'.unique hfirst
  unfold addrAllocPage
  rw [he, he']
  simp only [AddrAlloc.cut, Prod.mk.injEq, true_and]
  rw [bitmapSetBit_cut (by omega) hn]

/-- The frame that is taken is the same. -/
theorem allocPage_cut (hn : (n : Int) ≤ s.paddrAlloc.bitmap.bitCount)
    (hf : (s.cut n).allocPage.1 ≠ 0) :
    (s.cut n).allocPage = (s.allocPage.1, s.allocPage.2.cut n) := by
  have hcut : addrAllocPage (s.cut n).paddrAlloc 1 =
      ((addrAllocPage s.paddrAlloc 1).1, (addrAllocPage s.paddrAlloc 1).2.cut n) :=
    addrAllocPage_cut hn hf
  unfold MemState.allocPage
  rw [hcut]
  rfl

/-- The entry that `find_pte` finds is the same. -/
theorem findPte_cut (hn : (n : Int) ≤ s.paddrAlloc.bitmap.bitCount)
    (he : findPte (s.cut n) d v true = (pte, s₁)) (hpos : pte ≠ 0) :
    ∃ s', findPte s d v true = (pte, s') ∧ s₁ = s'.cut n := by
  unfold findPte at he ⊢
  simp only [cut_mem, Bool.true_eq_false, if_false] at he ⊢
  split at he
  · rename_i hp
    obtain ⟨rfl, rfl⟩ := Prod.mk.inj he
    exact ⟨s, if_pos hp, rfl⟩
  · rename_i hp
    rw [if_neg hp]
    split at he
    · obtain ⟨rfl, -⟩ := Prod.mk.inj he
      exact absurd rfl hpos
    · rename_i hf
      rw [allocPage_cut hn hf] at he hf
      rw [if_neg hf]
      obtain ⟨rfl, rfl⟩ := Prod.mk.inj he
      exact ⟨_, rfl, rfl⟩

/-- A range that is mapped with the first frames only is mapped in the same way. -/
theorem memoryCreateMap_cut (hn : (n : Int) ≤ s.paddrAlloc.bitmap.bitCount)
    (he : memoryCreateMap (s.cut n) d v paddr k perm = some (0, s₁)) :
    ∃ s', memoryCreateMap s d v paddr k perm = some (0, s') ∧ s₁ = s'.cut n := by
  induction k generalizing s v paddr with
  | zero =>
    obtain ⟨-, rfl⟩ := Prod.mk.inj (Option.some.inj he)
    exact ⟨s, rfl, rfl⟩
  | succ k ih =>
    rw [memoryCreateMap] at he
    cases hs : findPte (s.cut n) d v true with
    | mk pte s₂ =>
      rw [hs] at he
      simp only at he
      split at he
      · cases (Prod.mk.inj (Option.some.inj he)).1
      rename_i hpos
      -- The same frame is found with the larger allocator, and the loop goes on with it.
      obtain ⟨s₃, hfind, rfl⟩ := findPte_cut hn hs hpos
      have hrange := findPte_sameRange s d v true
      rw [hfind] at hrange
      rw [cut_mem] at he
      split at he
      · cases he
      rename_i hp
      obtain ⟨s', hres, hcut⟩ := ih (s := s₃.store pte (paddr ||| perm ||| pteP))
        (hrange.bitCount.symm ▸ hn) he
      refine ⟨s', ?_, hcut⟩
      rw [memoryCreateMap, hfind]
      simp only [hpos, hp, if_false]
      exact hres

/-- The pages of the ranges are mapped in the directory of the kernel, and no other page has
changed. -/
structure RowsMapped (L : Layout) (m : Mem) (maps : List MemoryMap) (m' : Mem) : Prop where
  pages : ∀ map ∈ maps, ∀ k < map.behind - map.first,
    walk m' L.kernelPageDir (map.first * 4096 + 4096 * k)
      = some (physPage (down2 map.pstart memPageSize) k ||| map.perm ||| pteP)
  others : ∀ w < 2 ^ 32, (∀ map ∈ maps, w / 4096 < map.first ∨ map.behind ≤ w / 4096) →
    walk m' L.kernelPageDir w = walk m L.kernelPageDir w

/-- A range in front of others. -/
theorem RowsMapped.cons {map : MemoryMap} {maps : List MemoryMap} (hmap : MapOk map)
    (hlater : ∀ map' ∈ maps, map.behind ≤ map'.first)
    (h₁ : FrontMapped L s (map.first * 4096) (down2 map.pstart memPageSize)
      (map.behind - map.first) map.perm s₁) (h₂ : RowsMapped L s₁.mem maps m) :
    RowsMapped L s.mem (map :: maps) m := by
  constructor
  · intro map' hm' k hk
    rcases List.mem_cons.mp hm' with rfl | hm'
    · -- The later ranges leave the pages of the first one alone.
      obtain ⟨hlt, -, hbehind⟩ := hmap.page hk
      rw [h₂.others _ hlt fun map' hm' => Or.inl (hbehind.trans_le (hlater map' hm'))]
      exact h₁.pages k hk
    · exact h₂.pages map' hm' k hk
  · intro w hw hout
    rw [h₂.others w hw fun map' hm' => hout map' (List.mem_cons_of_mem map hm')]
    refine h₁.others w hw fun k hk he => ?_
    obtain ⟨-, hfirst, hbehind⟩ := hmap.page hk
    rcases hout map List.mem_cons_self with hlow | hhigh <;> omega

/-- The loop of `create_kernel_table` makes the same tables with a larger allocator. The first
`n` frames suffice, since there are as many of them as indices for tables. -/
theorem createKernelMaps_cut {maps : List MemoryMap} {b : Nat} (h : MemInv L (s.cut n) [] [])
    (hbal : Balance L b (s.cut n)) (hb : c ≤ b) (hbelow : TablesBelow L s.mem c)
    (hn : (n : Int) ≤ s.paddrAlloc.bitmap.bitCount) (hok : ∀ map ∈ maps, MapOk map)
    (hbehind : ∀ map ∈ maps, map.behind ≤ 1024 * c)
    (horder : maps.Pairwise fun map map' => map.behind ≤ map'.first)
    (hfree : ∀ map ∈ maps, ∀ w < 2 ^ 32, map.first ≤ w / 4096 → w / 4096 < map.behind →
      walk s.mem L.kernelPageDir w = none) :
    ∃ s', createKernelMaps L s maps = some s' ∧
      createKernelMaps L (s.cut n) maps = some (s'.cut n) ∧ RowsMapped L s.mem maps s'.mem := by
  induction maps generalizing s with
  | nil => exact ⟨s, rfl, rfl, fun _ hm => absurd hm List.not_mem_nil, fun _ _ _ => rfl⟩
  | cons map maps ih =>
    have hmap := hok map (by simp)
    obtain ⟨hfirst, horder'⟩ := List.pairwise_cons.mp horder
    obtain ⟨-, -, hal, hlt⟩ := hmap.call
    have hend : map.behind ≤ 1024 * c := hbehind map (by simp)
    obtain ⟨k, r, s₁, hr, hfront, hsame, hrest⟩ := hmap.front h (hfree map (by simp))
    obtain ⟨hinv, hbal₁⟩ := memoryCreateMap_keeps (I := Balance L b) h hbal
      (fun k hk s p s' _ hs _ hm => hm.balance (hmap.page hk).1 hs) hmap.bounds.2.2 hal hlt
      hmap.perm hr
    -- The tables of this range have indices below `c`, too.
    have hidx : ∀ j < map.behind - map.first, pdeIndex (map.first * 4096 + 4096 * j) < c :=
      fun j hj => pdeIndex_below ((hmap.page hj).2.2.trans_le hend)
    have hbelow₁ : TablesBelow L s₁.mem c := by
      intro i hi ht
      rcases hfront.tables i hi ht with hold | ⟨j, hj, rfl⟩
      · exact hbelow i hi hold
      · exact hidx j (by omega)
    -- The frames do not run out, so the whole range is mapped.
    rcases hrest with ⟨hk, hr0⟩ | ⟨hk, hzero, hnone⟩
    swap
    · have htables := hbelow₁.card_lt (hidx k hk) hnone
      unfold Balance at hbal₁
      omega
    subst hk hr0
    obtain ⟨s₂, hcall, rfl⟩ := memoryCreateMap_cut hn hr
    have hrange := memoryCreateMap_sameRange hcall
    obtain ⟨s', hmaps, hcut, hmapped⟩ := ih hinv hbal₁ hbelow₁ (hrange.bitCount.symm ▸ hn)
      (fun map hm => hok map (by simp [hm])) (fun map hm => hbehind map (by simp [hm])) horder'
      fun map' hm' w hw h₁ h₂ => by
        have hother : walk s₂.mem L.kernelPageDir w = walk s.mem L.kernelPageDir w :=
          hsame w hw (Or.inr ((hfirst map' hm').trans h₁))
        rw [hother]
        exact hfree map' (by simp [hm']) w hw h₁ h₂
    have hrows : RowsMapped L (s.cut n).mem (map :: maps) s'.mem :=
      RowsMapped.cons hmap hfirst hfront hmapped
    refine ⟨s', ?_, ?_, hrows⟩
    · rw [hmap.createKernelMaps_cons, hcall, Option.bind_some]
      exact hmaps
    · rw [hmap.createKernelMaps_cons, hr, Option.bind_some]
      exact hcut

/-- The ranges of `kernel_map` end at `MEM_EXT_END`. -/
theorem kernelMap_behind (hL : L.sData < memEbdaStart) :
    ∀ map ∈ kernelMap L, map.behind ≤ 1024 * 32 := by
  have horder := kernelMap_order hL
  unfold kernelMap at horder ⊢
  simp only [List.pairwise_cons, List.mem_cons, List.not_mem_nil, or_false, forall_eq_or_imp,
    forall_eq] at horder ⊢
  obtain ⟨⟨-, -, -, h₁⟩, ⟨-, -, h₂⟩, ⟨-, h₃⟩, h₄, -⟩ := horder
  have hfirst : MemoryMap.first ⟨memExtStart, memExtEnd, memExtStart, pteW⟩ = 256 := by decide
  have hbehind : MemoryMap.behind ⟨memExtStart, memExtEnd, memExtStart, pteW⟩ = 32768 := by decide
  omega

/-- The state in front of the loop of `create_kernel_table`. -/
def MemState.clearDir (L : Layout) (s : MemState) : MemState :=
  { s with mem := kernelMemset s.mem L.kernelPageDir 0 (4 * pdeCnt) }

theorem createKernelTable_eq (L : Layout) (s : MemState) :
    createKernelTable L s = createKernelMaps L (s.clearDir L) (kernelMap L) := rfl

theorem clearDir_tables (s : MemState) :
    ∀ i < 1024, tableAt (s.clearDir L).mem L.kernelPageDir i = none :=
  clear_kernelPageDir L s.mem

theorem clearDir_walk (s : MemState) (hv : v < 2 ^ 32) :
    walk (s.clearDir L).mem L.kernelPageDir v = none :=
  pageAt_of_no_table (clearDir_tables s _ (pdeIndex_lt hv))

/-- `create_kernel_table` maps all of its ranges, when 32 of the first `n` frames are free: there
are no more tables up to `MEM_EXT_END`. It does the same with these frames only. -/
theorem createKernelTable_rows (hL : L.sData < memEbdaStart)
    (himage : L.kernelPageDir + 4096 ≤ memExtStart) (hstart : s.paddrAlloc.start = memExtStart)
    (hpage : s.paddrAlloc.pageSize = memPageSize) (hn : n ≤ 32512)
    (hcount : (n : Int) ≤ s.paddrAlloc.bitmap.bitCount)
    (hframes : 32 ≤ freeCount (s.paddrAlloc.cut n)) :
    ∃ s', createKernelTable L s = some s' ∧
      createKernelMaps L ((s.clearDir L).cut n) (kernelMap L) = some (s'.cut n) ∧
      RowsMapped L (s.clearDir L).mem (kernelMap L) s'.mem := by
  have hinv : MemInv L ((s.clearDir L).cut n) [] [] :=
    memInv_empty (cut_shape hstart hpage hn) himage (clearDir_tables s)
  have hbal : Balance L (freeCount (s.paddrAlloc.cut n)) ((s.clearDir L).cut n) :=
    balance_clear s.mem rfl
  rw [createKernelTable_eq]
  exact createKernelMaps_cut hinv hbal hframes (fun i hi ht => absurd (clearDir_tables s i hi) ht)
    hcount (kernelMap_ok hL) (kernelMap_behind hL) (kernelMap_order hL)
    fun _ _ w hw _ _ => clearDir_walk s hw

/-! ### The state that `memory_init` leaves -/

/-- The state in front of the loop of `create_kernel_table`. -/
def clearState (L : Layout) (bootInfo : BootInfo) (m : Mem) : MemState where
  mem := kernelMemset m L.kernelPageDir 0 (4 * pdeCnt)
  paddrAlloc := (bootState L bootInfo m).paddrAlloc

theorem clearState_mem (L : Layout) (bootInfo : BootInfo) (m : Mem) :
    (clearState L bootInfo m).mem = kernelMemset m L.kernelPageDir 0 (4 * pdeCnt) := rfl

/-- `memory_init` returns what the loop of `create_kernel_table` returns. -/
theorem memoryInit_eq_some : memoryInit L bootInfo m = some s ↔
    memFreeEnd L bootInfo < memEbdaStart ∧
      createKernelMaps L (clearState L bootInfo m) (kernelMap L) = some s := by
  rw [memoryInit_eq]
  split
  · rename_i hassert
    exact ⟨fun he => ⟨hassert, he⟩, And.right⟩
  · rename_i hassert
    exact ⟨fun he => (by cases he), fun he => absurd he.1 hassert⟩

theorem clearState_walk (hv : v < 2 ^ 32) :
    walk (clearState L bootInfo m).mem L.kernelPageDir v = none := by
  rw [walk, clearState_mem]
  exact pageAt_of_no_table (clear_kernelPageDir L m _ (pdeIndex_lt hv))

/-- The number of frames. -/
theorem clearState_bitCount : (clearState L bootInfo m).paddrAlloc.bitmap.bitCount
    = (memUp1MBFree bootInfo / memPageSize : Nat) := by
  simp only [clearState, bootState, addrAllocInit, bitmapInit]
  exact frameCount_fits bootInfo

/-- All bits of the bitmap are cleared. -/
theorem clearState_bits (hi : i < memUp1MBFree bootInfo / memPageSize) :
    bitmapGetBit (clearState L bootInfo m).paddrAlloc.bitmap i = 0 := by
  have hlt : (i : Int) < toInt ((memUp1MBFree bootInfo / memPageSize : Nat) : Int) := by
    rw [frameCount_fits]
    exact Int.ofNat_lt.mpr hi
  exact bitmapInit_getBit (fun j => m (L.memFreeStart + j)) _ hlt

/-- In front of the loop all frames are free. -/
theorem clearState_balance (hn : s.paddrAlloc.pages = n)
    (hbits : ∀ i < n, bitmapGetBit s.paddrAlloc.bitmap i = 0)
    (hmem : s.mem = (clearState L bootInfo m).mem) : Balance L n s := by
  rw [← hn, ← freeCount_clear (hn ▸ hbits)]
  exact balance_clear m hmem

/-- The number of frames of a larger allocator. -/
theorem frames_large (hin : ¬ InKernelMap bootInfo) :
    32512 < memUp1MBFree bootInfo / memPageSize := by
  have hwhole := memUp1MBFree_whole bootInfo
  unfold InKernelMap memExtStart memExtEnd at hin
  unfold memPageSize
  omega

/-- `memory_init` returns for a managed range that ends behind `MEM_EXT_END`, and the page behind
`MEM_EXT_END` is not mapped. -/
theorem memoryInit_large (m : Mem) (hin : ¬ InKernelMap bootInfo)
    (hassert : memFreeEnd L bootInfo < memEbdaStart) :
    ∃ s, memoryInit L bootInfo m = some s ∧ walk s.mem L.kernelPageDir 0x8000000 = none := by
  have hL := memFreeStart_lt hassert
  have hdata := sData_lt hL
  have hlarge := frames_large hin
  have hbss := L.bss
  have himage : L.kernelPageDir + 4096 ≤ memExtStart := by
    unfold memEbdaStart at hL
    unfold memExtStart
    omega
  have hn : ((32512 : Nat) : Int) ≤ (bootState L bootInfo m).paddrAlloc.bitmap.bitCount := by
    show _ ≤ (clearState L bootInfo m).paddrAlloc.bitmap.bitCount
    rw [clearState_bitCount]
    exact Int.ofNat_le.mpr hlarge.le
  -- With its first 32512 frames, the allocator ends at `MEM_EXT_END`. All of them are free.
  have hpages : ((bootState L bootInfo m).paddrAlloc.cut 32512).pages = 32512 :=
    Int.toNat_natCast 32512
  have hfree : freeCount ((bootState L bootInfo m).paddrAlloc.cut 32512) = 32512 := by
    rw [freeCount_clear, hpages]
    intro i hi
    rw [cut_getBit]
    exact clearState_bits ((hpages ▸ hi).trans hlarge)
  obtain ⟨s, he, -, hrows⟩ := createKernelTable_rows hdata himage rfl rfl (Nat.le_refl 32512) hn
    (by rw [hfree]; decide)
  refine ⟨s, memoryInit_eq_some.mpr ⟨hassert, he⟩, ?_⟩
  rw [hrows.others 0x8000000 (by decide) fun map hm => Or.inr (kernelMap_behind hdata map hm)]
  exact clearDir_walk _ (by decide)

/-- The frames that are not free are the tables of the kernel. -/
theorem clearState_inv (hin : InKernelMap bootInfo) (hL : L.memFreeStart < memEbdaStart) :
    MemInv L (clearState L bootInfo m) [] [] ∧
      Balance L (memUp1MBFree bootInfo / memPageSize) (clearState L bootInfo m) := by
  refine ⟨bootState_inv m hin hL, clearState_balance ?_ (fun _ hi => clearState_bits hi) rfl⟩
  unfold AddrAlloc.pages
  rw [clearState_bitCount, Int.toNat_natCast]

/-- The two parts of the loop of `create_kernel_table`. -/
theorem createKernelMaps_append (maps maps' : List MemoryMap) :
    createKernelMaps L s (maps ++ maps') =
      (createKernelMaps L s maps).bind fun s' => createKernelMaps L s' maps' := by
  induction maps generalizing s with
  | nil => rfl
  | cons map maps ih =>
    rw [List.cons_append, createKernelMaps, createKernelMaps]
    simp only [ih, Option.bind_assoc]

/-- The last range of `kernel_map`: memory from 1 MB on. -/
def extMap : MemoryMap := ⟨memExtStart, memExtEnd, memExtStart, pteW⟩

/-- The ranges in front of it. -/
def lowMaps (L : Layout) : List MemoryMap := (kernelMap L).take 4

theorem kernelMap_append (L : Layout) : kernelMap L = lowMaps L ++ [extMap] := rfl

/-- The page of the address is present and writable, and it is mapped to itself. -/
def IdentityMapped (m : Mem) (d addr : Nat) : Prop :=
  ∃ e, walk m d addr = some e ∧ ptePaddr e = addr ∧ writable e = true

/-- In front of the last range, only the first table can exist, and no page from 1 MB on is
mapped. -/
theorem lowMaps_spec (hin : InKernelMap bootInfo) (hL : L.memFreeStart < memEbdaStart)
    (he : createKernelMaps L (clearState L bootInfo m) (lowMaps L) = some s) :
    MemInv L s [] [] ∧ Balance L (memUp1MBFree bootInfo / memPageSize) s ∧
      (∀ i < 1024, tableAt s.mem L.kernelPageDir i ≠ none → i = 0) ∧
      ∀ w < 2 ^ 32, 256 ≤ w / 4096 → walk s.mem L.kernelPageDir w = none := by
  obtain ⟨hinv, hbal⟩ := clearState_inv (m := m) hin hL
  have horder := kernelMap_order (sData_lt hL)
  rw [kernelMap_append, List.pairwise_append] at horder
  have hok : ∀ map ∈ lowMaps L, MapOk map := fun map hm =>
    kernelMap_ok (sData_lt hL) map (List.mem_of_mem_take hm)
  have hbehind : ∀ map ∈ lowMaps L, map.behind ≤ 256 := fun map hm =>
    horder.2.2 map hm extMap (by simp)
  obtain ⟨hinv', hbal', htables⟩ := createKernelMaps_keeps
    (I := fun s => Balance L (memUp1MBFree bootInfo / memPageSize) s ∧
      ∀ i < 1024, tableAt s.mem L.kernelPageDir i ≠ none → i = 0) hinv
    ⟨hbal, fun i hi ht => absurd (clear_kernelPageDir L m i hi) ht⟩ hok
    (fun map hm s v p s' _ hI hv _ hb _ hmapped => ⟨hmapped.balance hv hI.1, fun i hi ht => by
      -- A page below 1 MB has its table at the index 0.
      by_contra hne
      have hidx : pdeIndex v = 0 := by
        have hle := hbehind map hm
        have hlt : pdeIndex v < 1 := pdeIndex_below (by omega)
        omega
      exact hne (hI.2 i hi (hmapped.tables i hi (hidx ▸ hne) ▸ ht))⟩) he
  obtain ⟨s', he', hother⟩ := createKernelMaps_returns hinv hok horder.1
    fun _ _ _ hw _ _ => clearState_walk hw
  obtain rfl : s' = s := Option.some.inj (he'.symm.trans he)
  refine ⟨hinv', hbal', htables, fun w hw hlow => ?_⟩
  rw [hother w hw fun map hm => Or.inr ((hbehind map hm).trans hlow)]
  exact clearState_walk hw

/-- Every frame of a managed range that ends at `MEM_EXT_END` or before is mapped to itself. When
the frames run out at a table, there are more tables than are needed to map the frames. -/
theorem identityMapped_of_inKernelMap (hin : InKernelMap bootInfo)
    (he : memoryInit L bootInfo m = some s) (hi : i < memUp1MBFree bootInfo / memPageSize) :
    IdentityMapped s.mem L.kernelPageDir (memExtStart + i * memPageSize) := by
  obtain ⟨hassert, he⟩ := memoryInit_eq_some.mp he
  have hL := memFreeStart_lt hassert
  rw [kernelMap_append, createKernelMaps_append] at he
  obtain ⟨s₁, hlow, he⟩ := Option.bind_eq_some_iff.mp he
  obtain ⟨hinv, hbal, htables, hfree⟩ := lowMaps_spec hin hL hlow
  have hmap : MapOk extMap := ⟨by decide, by decide, by decide, by decide⟩
  obtain ⟨-, -, hal, hlt⟩ := hmap.call
  rw [hmap.createKernelMaps_cons] at he
  obtain ⟨⟨r, s₂⟩, hr, he⟩ := Option.bind_eq_some_iff.mp he
  obtain rfl := Option.some.inj he
  have hfirst : extMap.first = 256 := by decide
  have hbehind : extMap.behind = 32768 := by decide
  have hpaddr : down2 extMap.pstart memPageSize = 256 * 4096 := by decide
  have hbounds := hmap.bounds.2.2
  obtain ⟨k, r', s', hr', hfront, -, hend⟩ :=
    hmap.front hinv fun w hw h₁ _ => hfree w hw (hfirst ▸ h₁)
  obtain ⟨-, rfl⟩ := Prod.mk.inj (Option.some.inj (hr'.symm.trans hr))
  obtain ⟨-, hbal'⟩ := memoryCreateMap_keeps (I := Balance L _) hinv hbal
    (fun k hk s p s' _ hs _ hm => hm.balance (hmap.page hk).1 hs) hbounds hal hlt hmap.perm hr
  rw [hfirst, hbehind, hpaddr] at *
  have hn : memUp1MBFree bootInfo / memPageSize ≤ 32512 := by
    unfold InKernelMap memExtStart memExtEnd at hin
    unfold memPageSize
    omega
  have hik : i < k := by
    rcases hend with ⟨hk, -⟩ | ⟨hk, hzero, hnone⟩
    · omega
    · -- All frames are tables, for indices below the one that has none.
      have hsub : kernelTables L s'.mem ⊆ Finset.range (pdeIndex (256 * 4096 + 4096 * k)) := by
        intro j hj
        obtain ⟨hjlt, ht⟩ := mem_kernelTables.mp hj
        have hne : j ≠ pdeIndex (256 * 4096 + 4096 * k) := by
          rintro rfl
          exact ht hnone
        rw [Finset.mem_range]
        rcases hfront.tables j hjlt ht with ht | ⟨k', hk', rfl⟩
        · have hj0 := htables j hjlt ht
          omega
        · unfold pdeIndex at hne ⊢
          omega
      have hcard := Finset.card_le_card hsub
      rw [Finset.card_range] at hcard
      unfold Balance at hbal'
      unfold pdeIndex at hcard
      omega
  have hphys : physPage (256 * 4096) i = memExtStart + i * memPageSize := by
    unfold physPage memExtStart memPageSize
    omega
  have haddr : memExtStart + i * memPageSize = 256 * 4096 + 4096 * i := by
    unfold memExtStart memPageSize
    omega
  have hperm : extMap.perm = pteW := rfl
  have hal' : (memExtStart + i * memPageSize) % 4096 = 0 := by
    rw [haddr]
    omega
  have hpermW : pteW < 4096 := by decide
  obtain ⟨-, hpte, hbits⟩ := entry_fields hal' hpermW
  refine ⟨_, ?_, hpte, ?_⟩
  · rw [haddr, hfront.pages i hik, hphys, haddr, hperm]
  · have hthree : pteW ||| pteP = 3 := by decide
    unfold writable
    rw [decide_eq_true_iff]
    omega

/-- The state that `memory_init` leaves has the range that it computed. -/
theorem memoryInit_range (he : memoryInit L bootInfo m = some s) :
    s.paddrAlloc.start = memExtStart ∧ s.paddrAlloc.size = memUp1MBFree bootInfo ∧
      s.paddrAlloc.pageSize = memPageSize ∧
      s.paddrAlloc.bitmap.bitCount = (memUp1MBFree bootInfo / memPageSize : Nat) := by
  have hrange := memoryInit_sameRange he
  exact ⟨hrange.start, hrange.size, hrange.pageSize, hrange.bitCount.trans clearState_bitCount⟩

/-- The frames that `create_kernel_table` takes are the tables of the kernel. -/
theorem memoryInit_balance (hin : InKernelMap bootInfo) (he : memoryInit L bootInfo m = some s) :
    Balance L (memUp1MBFree bootInfo / memPageSize) s := by
  obtain ⟨hassert, he⟩ := memoryInit_eq_some.mp he
  have hL := memFreeStart_lt hassert
  obtain ⟨hinv, hbal⟩ := clearState_inv (m := m) hin hL
  exact (createKernelMaps_keeps (I := Balance L _) hinv hbal (kernelMap_ok (sData_lt hL))
    (fun _ _ _ _ _ _ _ hs hv _ _ _ hmapped => hmapped.balance hv hs) he).2

/-- There is a free frame after `memory_init`, when there are more frames than tables. -/
theorem memoryInit_free (hin : InKernelMap bootInfo) (he : memoryInit L bootInfo m = some s)
    (hlarge : 1024 < memUp1MBFree bootInfo / memPageSize) : 0 < freeCount s.paddrAlloc := by
  have hbal := memoryInit_balance hin he
  have hcard := Finset.card_le_card (Finset.filter_subset (fun i =>
    tableAt s.mem L.kernelPageDir i ≠ none) (Finset.range 1024))
  rw [Finset.card_range] at hcard
  unfold Balance kernelTables at hbal
  omega

/-- Every frame of the allocator is present, writable and mapped to itself. -/
def FramesMapped (L : Layout) (s : MemState) : Prop :=
  ∀ i : Nat, (i : Int) < s.paddrAlloc.bitmap.bitCount →
    IdentityMapped s.mem L.kernelPageDir (s.paddrAlloc.start + i * s.paddrAlloc.pageSize)

/-- The frame behind `MEM_EXT_END` is not mapped. -/
theorem not_framesMapped (hin : ¬ InKernelMap bootInfo)
    (he : memoryInit L bootInfo m = some s) : ¬ FramesMapped L s := by
  intro hall
  obtain ⟨hstart, -, hsize, hcount⟩ := memoryInit_range he
  obtain ⟨s', he', hnone⟩ := memoryInit_large m hin (memoryInit_eq_some.mp he).1
  obtain rfl : s' = s := Option.some.inj (he'.symm.trans he)
  obtain ⟨e, hwalk, -⟩ := hall 32512 (by rw [hcount]; exact Int.ofNat_lt.mpr (frames_large hin))
  have haddr : memExtStart + 32512 * memPageSize = 0x8000000 := rfl
  rw [hstart, hsize, haddr, hnone] at hwalk
  cases hwalk

/-- Every frame that the allocator may hand out is present, writable and mapped to itself in
`kernel_page_dir` exactly when the managed range ends at `MEM_EXT_END` or before. -/
theorem framesMapped_iff (he : memoryInit L bootInfo m = some s) :
    FramesMapped L s ↔ InKernelMap bootInfo := by
  constructor
  · intro hall
    by_contra hin
    exact not_framesMapped hin he hall
  · intro hin i hi
    obtain ⟨hstart, -, hsize, hcount⟩ := memoryInit_range he
    rw [hcount] at hi
    rw [hstart, hsize]
    exact identityMapped_of_inKernelMap hin he (Int.ofNat_lt.mp hi)

/-- A machine with 16 MB of memory. -/
def sixteenMB : BootInfo := ⟨[(0, 0x9fc00), (0x100000, 0xf00000)]⟩

theorem sixteenMB_inKernelMap : InKernelMap sixteenMB := by
  unfold InKernelMap
  decide +kernel

/-- `memory_init` returns on this machine. -/
theorem memoryInit_sixteenMB :
    ∃ s, memoryInit smallLayout sixteenMB (fun _ => 0#8) = some s :=
  memoryInit_returns (L := smallLayout) (fun _ => 0#8) sixteenMB_inKernelMap (by decide +kernel)

/-- With 16 MB of memory all frames are mapped. -/
theorem framesMapped_sixteenMB :
    ∃ s, memoryInit smallLayout sixteenMB (fun _ => 0#8) = some s ∧ FramesMapped smallLayout s := by
  obtain ⟨s, he⟩ := memoryInit_sixteenMB
  exact ⟨s, he, (framesMapped_iff he).mpr sixteenMB_inKernelMap⟩

/-- With 256 MB of memory, `memory_init` returns and not all frames are mapped. -/
theorem not_framesMapped_256MB :
    ∃ s, memoryInit smallLayout ⟨[(0, 0x9fc00), (0x100000, 0xff00000)]⟩ (fun _ => 0#8) = some s ∧
      ¬ FramesMapped smallLayout s := by
  have hin : ¬ InKernelMap ⟨[(0, 0x9fc00), (0x100000, 0xff00000)]⟩ := by
    unfold InKernelMap
    decide +kernel
  obtain ⟨s, he, -⟩ := memoryInit_large (L := smallLayout) (fun _ => 0#8) hin (by decide +kernel)
  exact ⟨s, he, not_framesMapped hin he⟩

end StartKernel
