import StartKernel.Proofs.AllocPages

/-!
# `StartKernel.Proofs.MemoryInit`: the state that `memory_init` leaves

* `memoryInit_inv`: `memory_init` establishes the invariant of the memory state.
* `memoryInit_returns`: it returns for every boot information that passes its `ASSERT`, since
  the ranges of the table `kernel_map` do not overlap.
-/

set_option autoImplicit false

namespace StartKernel

open ByteMem (Mem)

variable {L : Layout} {s s' : MemState} {m : Mem} {k n v w paddr perm : Nat}

/-! ### Mapping a range for the kernel -/

/-- What each page of a range keeps when it is mapped in the directory of the kernel, a call of
`memory_create_map` keeps. It also keeps the invariant, whatever it maps. -/
theorem memoryCreateMap_keeps {I : MemState → Prop} {r : Int} (h : MemInv L s [] []) (hs : I s)
    (hI : ∀ k < n, ∀ s p s', MemInv L s [] [] → I s → p % 4096 = 0 →
      Mapped s L.kernelPageDir (v + 4096 * k) (p ||| perm ||| pteP) s' → I s')
    (hv : v + 4096 * n ≤ 2 ^ 32) (hal : paddr % 4096 = 0) (hlt : paddr < 2 ^ 32)
    (hperm : perm < 4096)
    (he : memoryCreateMap s L.kernelPageDir (toU32 v) paddr n perm = some (r, s')) :
    MemInv L s' [] [] ∧ I s' := by
  induction n generalizing s v paddr with
  | zero =>
    rw [memoryCreateMap] at he
    obtain ⟨-, rfl⟩ := Prod.mk.inj (Option.some.inj he)
    exact ⟨h, hs⟩
  | succ n ih =>
    rw [toU32_natCast (by omega)] at he
    have ho : OwnsEntry L [] L.kernelPageDir (pdeIndex v) :=
      ownsEntry_kernel (pdeIndex_lt (by omega))
    by_cases hwalk : walk s.mem L.kernelPageDir v = none
    · rcases memoryCreateMap_step h ho (fun _ => rfl) hwalk hal hlt hperm
          (fun hd => absurd hd List.not_mem_nil) with ⟨s₁, hmapped, hinv, hstep⟩ | ⟨-, -, hstep⟩
      · have hs₁ : I s₁ := hI 0 (by omega) s paddr s₁ h hs hal hmapped
        have hend : v + 4096 + 4096 * n ≤ 2 ^ 32 := (page_succ v n).trans_le hv
        have hal' : toU32 ((paddr : Int) + memPageSize) % 4096 = 0 := by
          unfold toU32 memPageSize
          omega
        rw [hstep n] at he
        refine ih (v := v + 4096) hinv hs₁ (fun k hk => ?_) hend hal' (toU32_lt _) ?_
        · rw [page_succ]
          exact hI (k + 1) (by omega)
        · rw [← he, Nat.cast_add]
          rfl
      · -- No frame is left for the table, and nothing has changed.
        rw [hstep n] at he
        obtain ⟨-, rfl⟩ := Prod.mk.inj (Option.some.inj he)
        exact ⟨h, hs⟩
    · -- A page that is mapped already stops the kernel.
      obtain ⟨e, hw⟩ := Option.ne_none_iff_exists'.mp hwalk
      rw [memoryCreateMap_mapped h ho hw] at he
      cases he

/-- The address of the page `k` of a physical range, in 32 bits. -/
def physPage (paddr k : Nat) : Nat := (paddr + 4096 * k) % 2 ^ 32

/-- The pages of a range and of its rest. -/
theorem physPage_succ (paddr k : Nat) : physPage (physPage paddr 1) k = physPage paddr (k + 1) := by
  unfold physPage
  omega

theorem physPage_zero (hlt : paddr < 2 ^ 32) : physPage paddr 0 = paddr := by
  unfold physPage
  omega

/-- The address that the loop of `memory_create_map` goes on with. -/
theorem physPage_next (paddr : Nat) : toU32 ((paddr : Int) + memPageSize) = physPage paddr 1 := by
  unfold toU32 memPageSize physPage
  omega

/-- Two addresses in the same page have the same page behind them. -/
theorem next_page (h : v / 4096 = w / 4096) :
    toU32 ((v : Int) + memPageSize) / 4096 = toU32 ((w : Int) + memPageSize) / 4096 := by
  rw [physPage_next, physPage_next]
  unfold physPage
  omega

/-- The first `n` pages of a range are mapped in the directory of the kernel, and no other page
has changed. -/
structure FrontMapped (L : Layout) (s : MemState) (v paddr n perm : Nat) (s' : MemState) :
    Prop where
  pages : ∀ k < n, walk s'.mem L.kernelPageDir (v + 4096 * k)
    = some (physPage paddr k ||| perm ||| pteP)
  others : ∀ w < 2 ^ 32, (∀ k < n, w / 4096 ≠ (v + 4096 * k) / 4096) →
    walk s'.mem L.kernelPageDir w = walk s.mem L.kernelPageDir w
  tables : ∀ i < 1024, tableAt s'.mem L.kernelPageDir i ≠ none →
    tableAt s.mem L.kernelPageDir i ≠ none ∨ ∃ k < n, i = pdeIndex (v + 4096 * k)

/-- A page in front of a mapped range. -/
theorem FrontMapped.cons {s₁ : MemState} (hv : v + 4096 * (n + 1) ≤ 2 ^ 32)
    (hlt : paddr < 2 ^ 32) (h₁ : Mapped s L.kernelPageDir v (paddr ||| perm ||| pteP) s₁)
    (h₂ : FrontMapped L s₁ (v + 4096) (physPage paddr 1) n perm s') :
    FrontMapped L s v paddr (n + 1) perm s' := by
  refine ⟨?_, ?_, ?_⟩
  · -- The rest of the range leaves the first page alone.
    intro k hk
    cases k with
    | zero =>
      show walk s'.mem L.kernelPageDir v = _
      rw [physPage_zero hlt, ← h₁.page]
      exact h₂.others v (by omega) fun k hk => by omega
    | succ k =>
      have hpage := h₂.pages k (by omega)
      rw [page_succ, physPage_succ] at hpage
      exact hpage
  · intro w hw hne
    rw [h₂.others w hw fun k hk => by rw [page_succ]; exact hne (k + 1) (by omega)]
    refine h₁.others _ (pdeIndex_lt hw) _ (pteIndex_lt w) fun hij => ?_
    exact hne 0 (by omega) (same_page hij.1 hij.2)
  · intro i hi ht
    rcases h₂.tables i hi ht with ht | ⟨k, hk, rfl⟩
    · by_cases hii : i = pdeIndex v
      · exact Or.inr ⟨0, by omega, hii⟩
      · exact Or.inl (h₁.tables i hi hii ▸ ht)
    · exact Or.inr ⟨k + 1, by omega, by rw [page_succ]⟩

/-- `memory_create_map` of unmapped pages in the directory of the kernel returns. It maps all of
them, or it maps the first `k` and there is no frame for the table of the next one. -/
theorem memoryCreateMap_front (h : MemInv L s [] []) (hv : v + 4096 * n ≤ 2 ^ 32)
    (hal : paddr % 4096 = 0) (hlt : paddr < 2 ^ 32) (hperm : perm < 4096)
    (hfree : ∀ k < n, walk s.mem L.kernelPageDir (v + 4096 * k) = none) :
    ∃ k r s', memoryCreateMap s L.kernelPageDir (toU32 v) paddr n perm = some (r, s') ∧
      FrontMapped L s v paddr k perm s' ∧
      ((k = n ∧ r = 0) ∨ (k < n ∧ freeCount s'.paddrAlloc = 0 ∧
        tableAt s'.mem L.kernelPageDir (pdeIndex (v + 4096 * k)) = none)) := by
  induction n generalizing s v paddr with
  | zero =>
    refine ⟨0, 0, s, rfl, ⟨by simp, fun _ _ _ => rfl, fun _ _ ht => Or.inl ht⟩, Or.inl ⟨rfl, rfl⟩⟩
  | succ n ih =>
    have ho : OwnsEntry L [] L.kernelPageDir (pdeIndex v) :=
      ownsEntry_kernel (pdeIndex_lt (by omega))
    have hv0 : walk s.mem L.kernelPageDir v = none := by simpa using hfree 0 (by omega)
    rw [toU32_natCast (by omega)]
    rcases memoryCreateMap_step h ho (fun _ => rfl) hv0 hal hlt hperm
        (fun hd => absurd hd List.not_mem_nil) with
      ⟨s₁, hmapped, hinv, hstep⟩ | ⟨hnone, hzero, hstep⟩
    · have hend : v + 4096 + 4096 * n ≤ 2 ^ 32 := (page_succ v n).trans_le hv
      have hal' : physPage paddr 1 % 4096 = 0 := by
        unfold physPage
        omega
      have hrest : ∀ k < n, walk s₁.mem L.kernelPageDir (v + 4096 + 4096 * k) = none := by
        intro k hk
        rw [walk_behind hv hmapped.others hk]
        exact hfree (k + 1) (by omega)
      obtain ⟨k, r, s', he, hfront, hend'⟩ := ih hinv hend hal' (Nat.mod_lt _ (by decide)) hrest
      have hcall : memoryCreateMap s L.kernelPageDir v paddr (n + 1) perm = some (r, s') := by
        rw [hstep n, physPage_next, ← he, Nat.cast_add]
        rfl
      rcases hend' with ⟨rfl, hr⟩ | ⟨hk, hzero, hnone⟩
      · exact ⟨k + 1, r, s', hcall, hfront.cons hv hlt hmapped, Or.inl ⟨rfl, hr⟩⟩
      · rw [page_succ] at hnone
        refine ⟨k + 1, r, s', hcall, hfront.cons (range_le hv hk.le) hlt hmapped, ?_⟩
        exact Or.inr ⟨by omega, hzero, hnone⟩
    · -- The first table is missing already.
      refine ⟨0, -1, s, hstep n, ⟨by simp, fun _ _ _ => rfl, fun _ _ ht => Or.inl ht⟩, ?_⟩
      exact Or.inr ⟨by omega, hzero, hnone⟩

/-! ### The kernel's table of ranges -/

/-- The numbers of an entry of `kernel_map` fit: the range is not reversed and lies in the
lower half of the address space. -/
structure MapOk (map : MemoryMap) : Prop where
  le : map.vstart ≤ map.vend
  vend : map.vend < 2 ^ 31
  pstart : map.pstart < 2 ^ 32
  perm : map.perm < 4096

/-- The number of the first page of a range. -/
def MemoryMap.first (map : MemoryMap) : Nat := map.vstart / 4096

/-- The number of the first page behind a range. -/
def MemoryMap.behind (map : MemoryMap) : Nat := (map.vend + 4095) / 4096

/-- The pages of a range. -/
theorem MapOk.bounds {map : MemoryMap} (h : MapOk map) :
    map.first ≤ map.behind ∧ map.first * 4096 < 2 ^ 32 ∧
      map.first * 4096 + 4096 * (map.behind - map.first) ≤ 2 ^ 32 := by
  have hle := h.le
  have hvend := h.vend
  unfold MemoryMap.first MemoryMap.behind
  omega

/-- The page `k` of a range. -/
theorem MapOk.page {map : MemoryMap} (h : MapOk map) (hk : k < map.behind - map.first) :
    map.first * 4096 + 4096 * k < 2 ^ 32 ∧
      map.first ≤ (map.first * 4096 + 4096 * k) / 4096 ∧
      (map.first * 4096 + 4096 * k) / 4096 < map.behind := by
  have hbounds := h.bounds
  omega

/-- The call that `create_kernel_table` makes for a range. -/
theorem MapOk.call {map : MemoryMap} (h : MapOk map) :
    down2 map.vstart memPageSize = map.first * 4096 ∧
      toU32 (up2 map.vend memPageSize - down2 map.vstart memPageSize) / memPageSize
        = map.behind - map.first ∧
      down2 map.pstart memPageSize % 4096 = 0 ∧ down2 map.pstart memPageSize < 2 ^ 32 := by
  have hle := h.le
  have hvend := h.vend
  have hpstart := h.pstart
  have hv : down2 map.vstart memPageSize = map.first * 4096 := down2_page (by omega)
  have hp : down2 map.pstart memPageSize = map.pstart / 4096 * 4096 := down2_page hpstart
  have hu : up2 map.vend memPageSize = map.behind * 4096 := up2_page (by omega)
  have hfirst : map.first ≤ map.behind := by
    unfold MemoryMap.first MemoryMap.behind
    omega
  have hbehind : map.behind * 4096 < 2 ^ 32 := by
    unfold MemoryMap.behind
    omega
  refine ⟨hv, ?_, by omega, by omega⟩
  rw [hu, hv, ← Nat.cast_sub (Nat.mul_le_mul_right 4096 hfirst), toU32_natCast (by omega),
    ← Nat.sub_mul]
  exact Nat.mul_div_cancel _ (by decide)

/-- The call that `create_kernel_table` makes for a range, and the loop behind it. -/
theorem MapOk.createKernelMaps_cons {map : MemoryMap} (h : MapOk map) (maps : List MemoryMap) :
    createKernelMaps L s (map :: maps) =
      (memoryCreateMap s L.kernelPageDir (toU32 (map.first * 4096 : Nat))
        (down2 map.pstart memPageSize) (map.behind - map.first) map.perm).bind fun r =>
          createKernelMaps L r.2 maps := by
  obtain ⟨hv, hcount, -, -⟩ := h.call
  rw [createKernelMaps]
  simp only [hcount]
  rw [hv, toU32_natCast h.bounds.2.1]

/-- The call for a range that is not mapped yet maps the front of it and no other page. -/
theorem MapOk.front {map : MemoryMap} (hmap : MapOk map) (h : MemInv L s [] [])
    (hfree : ∀ w < 2 ^ 32, map.first ≤ w / 4096 → w / 4096 < map.behind →
      walk s.mem L.kernelPageDir w = none) :
    ∃ k r s', memoryCreateMap s L.kernelPageDir (toU32 (map.first * 4096 : Nat))
        (down2 map.pstart memPageSize) (map.behind - map.first) map.perm = some (r, s') ∧
      FrontMapped L s (map.first * 4096) (down2 map.pstart memPageSize) k map.perm s' ∧
      (∀ w < 2 ^ 32, (w / 4096 < map.first ∨ map.behind ≤ w / 4096) →
        walk s'.mem L.kernelPageDir w = walk s.mem L.kernelPageDir w) ∧
      ((k = map.behind - map.first ∧ r = 0) ∨
        (k < map.behind - map.first ∧ freeCount s'.paddrAlloc = 0 ∧
          tableAt s'.mem L.kernelPageDir (pdeIndex (map.first * 4096 + 4096 * k)) = none)) := by
  obtain ⟨-, -, hal, hlt⟩ := hmap.call
  have hpage : ∀ k < map.behind - map.first,
      walk s.mem L.kernelPageDir (map.first * 4096 + 4096 * k) = none := by
    intro k hk
    obtain ⟨h₁, h₂, h₃⟩ := hmap.page hk
    exact hfree _ h₁ h₂ h₃
  obtain ⟨k, r, s', hr, hfront, hend⟩ :=
    memoryCreateMap_front h hmap.bounds.2.2 hal hlt hmap.perm hpage
  have hk : k ≤ map.behind - map.first := by omega
  refine ⟨k, r, s', hr, hfront, fun w hw hout => ?_, hend⟩
  -- A page outside the range is not one of its first `k` pages.
  refine hfront.others w hw fun j hj he => ?_
  obtain ⟨-, h₂, h₃⟩ := hmap.page (hj.trans_le hk)
  omega

/-- What each page of a range keeps when it is mapped, the loop of `create_kernel_table` keeps.
It also keeps the invariant. -/
theorem createKernelMaps_keeps {I : MemState → Prop} {maps : List MemoryMap}
    (h : MemInv L s [] []) (hs : I s) (hok : ∀ map ∈ maps, MapOk map)
    (hI : ∀ map ∈ maps, ∀ s v p s', MemInv L s [] [] → I s → v < 2 ^ 32 →
      map.first ≤ v / 4096 → v / 4096 < map.behind → p % 4096 = 0 →
      Mapped s L.kernelPageDir v (p ||| map.perm ||| pteP) s' → I s')
    (he : createKernelMaps L s maps = some s') : MemInv L s' [] [] ∧ I s' := by
  induction maps generalizing s with
  | nil =>
    obtain rfl := Option.some.inj he
    exact ⟨h, hs⟩
  | cons map maps ih =>
    have hmap := hok map (by simp)
    obtain ⟨-, -, hal, hlt⟩ := hmap.call
    rw [hmap.createKernelMaps_cons] at he
    obtain ⟨⟨r, s₁⟩, hr, he⟩ := Option.bind_eq_some_iff.mp he
    obtain ⟨hinv, hs₁⟩ := memoryCreateMap_keeps (I := I) h hs (fun k hk s p s' hinv hs hp hm => by
      obtain ⟨h₁, h₂, h₃⟩ := hmap.page hk
      exact hI map (by simp) s _ p s' hinv hs h₁ h₂ h₃ hp hm) hmap.bounds.2.2 hal hlt hmap.perm hr
    exact ih hinv hs₁ (fun map hm => hok map (by simp [hm]))
      (fun map hm => hI map (by simp [hm])) he

/-- The loop of `create_kernel_table` returns, when its ranges follow each other and are not
mapped yet. It maps no other page. -/
theorem createKernelMaps_returns {maps : List MemoryMap} (h : MemInv L s [] [])
    (hok : ∀ map ∈ maps, MapOk map)
    (horder : maps.Pairwise fun map map' => map.behind ≤ map'.first)
    (hfree : ∀ map ∈ maps, ∀ w < 2 ^ 32, map.first ≤ w / 4096 → w / 4096 < map.behind →
      walk s.mem L.kernelPageDir w = none) :
    ∃ s', createKernelMaps L s maps = some s' ∧ ∀ w < 2 ^ 32,
      (∀ map ∈ maps, w / 4096 < map.first ∨ map.behind ≤ w / 4096) →
        walk s'.mem L.kernelPageDir w = walk s.mem L.kernelPageDir w := by
  induction maps generalizing s with
  | nil => exact ⟨s, rfl, fun _ _ _ => rfl⟩
  | cons map maps ih =>
    have hmap := hok map (by simp)
    obtain ⟨hfirst, horder'⟩ := List.pairwise_cons.mp horder
    obtain ⟨-, -, hal, hlt⟩ := hmap.call
    obtain ⟨k, r, s₁, hr, -, hsame, -⟩ := hmap.front h (hfree map (by simp))
    have hinv := (memoryCreateMap_keeps (I := fun _ => True) h trivial
      (fun _ _ _ _ _ _ _ _ _ => trivial) hmap.bounds.2.2 hal hlt hmap.perm hr).1
    obtain ⟨s', he, hrest⟩ := ih hinv (fun map hm => hok map (by simp [hm])) horder'
      fun map' hm' w hw h₁ h₂ => by
        rw [hsame w hw (Or.inr ((hfirst map' hm').trans h₁))]
        exact hfree map' (by simp [hm']) w hw h₁ h₂
    refine ⟨s', ?_, fun w hw hout => ?_⟩
    · rw [hmap.createKernelMaps_cons, hr, Option.bind_some]
      exact he
    · rw [hrest w hw fun map' hm' => hout map' (by simp [hm'])]
      exact hsame w hw (hout map (by simp))

/-- The data of the kernel starts in its image. -/
theorem sData_lt (hL : L.memFreeStart < memEbdaStart) : L.sData < memEbdaStart := by
  have hdata := L.data
  have hbss := L.bss
  have hal := L.aligned
  unfold Layout.sData
  omega

/-- The entries of `kernel_map` fit, for data that starts below `MEM_EBDA_START`. -/
theorem kernelMap_ok (hL : L.sData < memEbdaStart) : ∀ map ∈ kernelMap L, MapOk map := by
  have htext := L.text
  unfold memEbdaStart at hL
  have hsData : L.eText ≤ L.sData := by
    unfold Layout.sData
    omega
  intro map hm
  unfold kernelMap Layout.kernelBase Layout.sText memEbdaStart consoleDispAddr consoleDispEnd
    consoleVideoBase memExtStart memExtEnd pteW at hm
  simp only [List.mem_cons, List.not_mem_nil, or_false] at hm
  rcases hm with rfl | rfl | rfl | rfl | rfl <;>
    refine ⟨?_, ?_, ?_, ?_⟩ <;> dsimp only <;> omega

/-- The ranges of `kernel_map` follow each other. -/
theorem kernelMap_order (hL : L.sData < memEbdaStart) :
    (kernelMap L).Pairwise fun map map' => map.behind ≤ map'.first := by
  have htext := L.text
  unfold memEbdaStart at hL
  have hsData : L.sData = (L.eText + 4095) / 4096 * 4096 := rfl
  unfold kernelMap MemoryMap.first MemoryMap.behind Layout.kernelBase Layout.sText memEbdaStart
    consoleDispAddr consoleDispEnd memExtStart
  simp only [List.pairwise_cons, List.mem_cons, List.not_mem_nil, or_false, forall_eq_or_imp,
    forall_eq]
  refine ⟨⟨?_, ?_, ?_, ?_⟩, ⟨?_, ?_, ?_⟩, ⟨?_, ?_⟩, ?_, ?_⟩ <;> first | omega | simp

/-! ### `memory_init` -/

/-- The managed range of `memory_init` lies in the part of memory that the kernel maps. -/
def InKernelMap (bootInfo : BootInfo) : Prop :=
  memExtStart + memUp1MBFree bootInfo ≤ memExtEnd + 1

/-- The state in front of `create_kernel_table`. -/
def bootState (L : Layout) (bootInfo : BootInfo) (m : Mem) : MemState where
  mem := m
  paddrAlloc := addrAllocInit (fun i => m (L.memFreeStart + i)) memExtStart
    (memUp1MBFree bootInfo) memPageSize

/-- The address behind the bitmap. -/
def memFreeEnd (L : Layout) (bootInfo : BootInfo) : Nat :=
  toU32 (L.memFreeStart + bitmapByteCount (toInt (memUp1MBFree bootInfo / memPageSize : Nat)))

theorem memoryInit_eq (bootInfo : BootInfo) (m : Mem) : memoryInit L bootInfo m =
    if memFreeEnd L bootInfo < memEbdaStart then createKernelTable L (bootState L bootInfo m)
    else none := rfl

/-- The size of the managed range is a `uint32_t`. -/
theorem memUp1MBFree_lt (bootInfo : BootInfo) : memUp1MBFree bootInfo < 2 ^ 32 := by
  have htotal := toU32_lt ((totalMemSize bootInfo : Int) - memExtStart)
  unfold memUp1MBFree memPageSize
  rw [down2_page htotal]
  omega

/-- The number of frames is its own `int`. -/
theorem frameCount_fits (bootInfo : BootInfo) :
    toInt ((memUp1MBFree bootInfo / memPageSize : Nat) : Int)
      = (memUp1MBFree bootInfo / memPageSize : Nat) := by
  have hlt := memUp1MBFree_lt bootInfo
  unfold memPageSize
  exact toInt_of_fits (by omega) (by omega)

/-- The bitmap lies behind the kernel image, so the image ends below `MEM_EBDA_START`. -/
theorem memFreeStart_lt {bootInfo : BootInfo} (hassert : memFreeEnd L bootInfo < memEbdaStart) :
    L.memFreeStart < memEbdaStart := by
  have himage := L.image
  have hlt := memUp1MBFree_lt bootInfo
  unfold memFreeEnd bitmapByteCount at hassert
  rw [frameCount_fits] at hassert
  unfold memPageSize at hassert
  rw [Int.tdiv_eq_ediv_of_nonneg (by omega), toU32_of_fits (by omega) (by omega)] at hassert
  omega

/-- A managed range of `memory_init` consists of whole pages. -/
theorem memUp1MBFree_whole (bootInfo : BootInfo) : memUp1MBFree bootInfo % 4096 = 0 := by
  unfold memUp1MBFree memPageSize
  rw [down2_page (toU32_lt _)]
  exact Nat.mul_mod_left _ _

/-- A memory in which the kernel has no tables satisfies the invariant. -/
theorem memInv_empty (hshape : PallocShape s.paddrAlloc)
    (himage : L.kernelPageDir + 4096 ≤ memExtStart)
    (hnone : ∀ i < 1024, tableAt s.mem L.kernelPageDir i = none) : MemInv L s [] [] := by
  have hunused : ∀ f r, ¬ Uses L s.mem [] [] f r := by
    intro f r hu
    cases r with
    | dir d => cases hu.1
    | held p => cases hu.1
    | page d i j => cases hu.1
    | table d i =>
      obtain ⟨⟨hi, rfl | ⟨hd, -⟩⟩, ht⟩ := hu
      · rw [hnone i hi] at ht
        cases ht
      · cases hd
  exact ⟨hshape, himage, ⟨fun hu => absurd hu (hunused _ _), fun hu => absurd hu (hunused _ _)⟩,
    by simp, by simp, List.nodup_nil, List.nodup_nil⟩

/-- The allocator as `memory_init` sets it up. -/
theorem bootState_shape {bootInfo : BootInfo} (m : Mem) (hin : InKernelMap bootInfo) :
    PallocShape (bootState L bootInfo m).paddrAlloc := by
  refine ⟨rfl, rfl, memUp1MBFree_whole bootInfo, ?_, hin⟩
  simp only [bootState, addrAllocInit, bitmapInit]
  exact frameCount_fits bootInfo

/-- The directory of the kernel is cleared. -/
theorem clear_kernelPageDir (L : Layout) (m : Mem) :
    ∀ i < 1024, tableAt (kernelMemset m L.kernelPageDir 0 (4 * pdeCnt)) L.kernelPageDir i
      = none := by
  intro i hi
  have htext := L.text
  have hdata := L.data
  have hcnt : 4 * pdeCnt = 4096 := by decide
  rw [hcnt, kernelMemset_page m (by omega), tableAt_eq_none, entryAt_fill_zero m hi]
  rfl

/-- The state in front of the loop of `create_kernel_table`. -/
theorem bootState_inv {bootInfo : BootInfo} (m : Mem) (hin : InKernelMap bootInfo)
    (hL : L.memFreeStart < memEbdaStart) :
    MemInv L { bootState L bootInfo m with
      mem := kernelMemset m L.kernelPageDir 0 (4 * pdeCnt) } [] [] := by
  have hbss := L.bss
  refine memInv_empty (bootState_shape m hin) ?_ (clear_kernelPageDir L m)
  unfold memEbdaStart at hL
  unfold memExtStart
  omega

/-- `memory_init` establishes the invariant: there are no address spaces yet, and no page is
handed out. -/
theorem memoryInit_inv {bootInfo : BootInfo} (hin : InKernelMap bootInfo)
    (he : memoryInit L bootInfo m = some s) : MemInv L s [] [] := by
  rw [memoryInit_eq] at he
  split at he
  · rename_i hassert
    have hL := memFreeStart_lt hassert
    exact (createKernelMaps_keeps (I := fun _ => True) (bootState_inv m hin hL) trivial
      (kernelMap_ok (sData_lt hL)) (fun _ _ _ _ _ _ _ _ _ _ _ _ _ => trivial) he).1
  · cases he

/-- `memory_init` returns when its `ASSERT` holds. -/
theorem memoryInit_returns {bootInfo : BootInfo} (m : Mem) (hin : InKernelMap bootInfo)
    (hassert : memFreeEnd L bootInfo < memEbdaStart) : ∃ s, memoryInit L bootInfo m = some s := by
  have hL := memFreeStart_lt hassert
  rw [memoryInit_eq, if_pos hassert]
  have hdata := sData_lt hL
  obtain ⟨s, he, -⟩ := createKernelMaps_returns (bootState_inv m hin hL) (kernelMap_ok hdata)
    (kernelMap_order hdata) fun map _ w hw _ _ =>
      pageAt_of_no_table (clear_kernelPageDir L m _ (pdeIndex_lt hw))
  exact ⟨s, he⟩

end StartKernel
