import StartKernel.Proofs.GetPaddr
import StartKernel.Proofs.KernelMap

/-!
# `StartKernel.Proofs.KernelTable`: the page table of the kernel is `kernel_map`

`create_kernel_table` rounds its five ranges outward to pages and maps them one after the other,
into tables that neighbours share. The allocator hands out the lowest free frame first, so 32
free frames below 4 MB hold all tables, whatever lies above.

* `MemoryMap.Covers`: the addresses of a range after the rounding.
* `memoryCreateMap_kernelPdes`: no entry of `kernel_page_dir` forbids writing.
* `createKernelTable_exact`: the directory maps what the ranges cover, to the address and with
  the permission that they name, and nothing else.
* `kernelAddr_eq_translate`: the kernel's pointers are translated as the processor does it.
-/

set_option autoImplicit false

namespace StartKernel

open ByteMem (Mem store32)
open Trace (run Meets)

variable {L : Layout} {s s' : MemState} {a : AddrAlloc} {m m' : Mem} {map : MemoryMap}
  {maps : List MemoryMap} {d e f i n v x paddr perm pte : Nat}

/-! ### The words of a mapped address -/

/-- A present entry is the second word of the walk, and the first word points to its table. -/
theorem words_of_walk (h : walk m d v = some e) :
    tableAt m d (pdeIndex v) = some (pdePaddr (pdeOf m d v)) ∧ pteOf m d v = e := by
  obtain ⟨t, ht, he, -⟩ := pageAt_eq_some h
  have hpaddr : pdePaddr (pdeOf m d v) = t := (tableAt_eq_some ht).2
  refine ⟨hpaddr ▸ ht, ?_⟩
  unfold pteOf pteAddr
  rw [hpaddr]
  exact he

/-- The processor lets the kernel write to an address that is mapped, when both words of the walk
have the bit for it. -/
def MmuWritable (m : Mem) (d v : Nat) : Prop :=
  mmuTranslate m d v ≠ none ∧ writable (pdeOf m d v) = true ∧ writable (pteOf m d v) = true

/-- An entry has the bit for writing when its permission has it. -/
theorem writable_entry (hf : f % 4096 = 0) (hp : perm < 4096) :
    writable (f ||| perm ||| pteP) = true ↔ perm &&& pteW ≠ 0 := by
  have hbits := (entry_fields hf hp).2.2
  have hmod : writable (f ||| perm ||| pteP) = writable (perm ||| pteP) := by
    unfold writable
    rw [decide_eq_decide]
    omega
  have htest : writable (perm ||| pteP) = perm.testBit 1 := by
    show decide ((perm ||| pteP) / 2 ^ 1 % 2 = 1) = _
    have hone : pteP.testBit 1 = false := by decide
    rw [← Nat.testBit_eq_decide_div_mod_eq, Nat.testBit_or, hone, Bool.or_false]
  have hand : perm &&& pteW = (perm.testBit 1).toNat * 2 := Nat.and_two_pow perm 1
  rw [hmod, htest, hand]
  cases perm.testBit 1 <;> simp

/-! ### The entries of the directory -/

/-- A new entry has the bit for writing. -/
theorem pde_writable (hf : IsFrame f) : writable (f ||| pteP ||| pteW ||| pdeU) = true := by
  have hal := hf.aligned
  rw [pde_eq hf]
  unfold writable
  rw [decide_eq_true_iff]
  omega

/-- The tables of the kernel lie above its image, and no entry that points to one of them
forbids writing. -/
structure KernelPdes (L : Layout) (s : MemState) : Prop where
  shape : PallocShape s.paddrAlloc
  above : ∀ i < 1024, ∀ t, tableAt s.mem L.kernelPageDir i = some t → memExtStart ≤ t
  writes : ∀ i < 1024, tableAt s.mem L.kernelPageDir i ≠ none →
    writable (entryAt s.mem L.kernelPageDir i) = true

section Pdes

variable (himage : L.kernelPageDir + 4096 ≤ memExtStart) (h : KernelPdes L s)

include himage h

/-- A word above the image is assigned. -/
theorem KernelPdes.store (hx : memExtStart ≤ x) : KernelPdes L (s.store x v) := by
  have hentry : ∀ i < 1024, entryAt (store32 s.mem x v) L.kernelPageDir i
      = entryAt s.mem L.kernelPageDir i := fun i hi =>
    ByteMem.load32_store32_apart s.mem v (Or.inl (by omega))
  have htable : ∀ i < 1024, tableAt (store32 s.mem x v) L.kernelPageDir i
      = tableAt s.mem L.kernelPageDir i := by
    intro i hi
    unfold tableAt
    rw [hentry i hi]
  refine ⟨h.shape, fun i hi t ht => ?_, fun i hi ht => ?_⟩
  · exact h.above i hi t ((htable i hi).symm.trans ht)
  · show writable (entryAt (store32 s.mem x v) L.kernelPageDir i) = true
    rw [hentry i hi]
    exact h.writes i hi (htable i hi ▸ ht)

/-- The entry that `find_pte` points to lies above the image. A new entry of the directory is
writable. -/
theorem findPte_kernelPdes (hv : v < 2 ^ 32)
    (he : findPte s L.kernelPageDir v true = (pte, s')) :
    KernelPdes L s' ∧ (pte ≠ 0 → memExtStart ≤ pte) := by
  have hidx := pdeIndex_lt hv
  rcases findPte_cases (d := L.kernelPageDir) (v := v) h.shape with
    ⟨t, ht, hfind⟩ | ⟨t, a', -, ha, hfind⟩ | ⟨-, -, hfind⟩
  · obtain ⟨rfl, rfl⟩ := Prod.mk.inj (he.symm.trans hfind)
    exact ⟨h, fun _ => (h.above _ hidx t ht).trans (Nat.le_add_right _ _)⟩
  · obtain ⟨rfl, rfl⟩ := Prod.mk.inj (he.symm.trans hfind)
    have habove : memExtStart ≤ t := ha.frame.above
    have hne : L.kernelPageDir ≠ t := by
      unfold memExtStart at himage habove
      omega
    -- Only the entry of the new table has changed.
    refine ⟨⟨ha.shape, fun i hi u hu => ?_, fun i hi hu => ?_⟩,
      fun _ => habove.trans (Nat.le_add_right _ _)⟩
    · by_cases hii : i = pdeIndex v
      · subst hii
        rw [tableAt_installTable ha.frame L.aligned hne hi] at hu
        exact Option.some.inj hu ▸ habove
      · rw [tableAt_installTable_other ha.frame L.aligned hne s.mem hi hii] at hu
        exact h.above i hi u hu
    · show writable (entryAt (installTable s.mem L.kernelPageDir (pdeIndex v) t) _ i) = true
      rw [entryAt_installTable ha.frame L.aligned hne s.mem hi]
      by_cases hii : i = pdeIndex v
      · subst hii
        rw [entryAt_store_same s.mem (pde_fields ha.frame).2.2]
        exact pde_writable ha.frame
      · rw [entryAt_store_other s.mem _ hii]
        refine h.writes i hi ?_
        rw [← tableAt_installTable_other ha.frame L.aligned hne s.mem hi hii]
        exact hu
  · obtain ⟨rfl, rfl⟩ := Prod.mk.inj (he.symm.trans hfind)
    exact ⟨h, fun hpos => absurd rfl hpos⟩

/-- No entry of the directory forbids writing after a range was mapped. The induction is on the
number of pages. -/
theorem memoryCreateMap_kernelPdes {r : Int} (hv : v < 2 ^ 32)
    (he : memoryCreateMap s L.kernelPageDir v paddr n perm = some (r, s')) : KernelPdes L s' := by
  induction n generalizing s v paddr with
  | zero =>
    obtain ⟨-, rfl⟩ := Prod.mk.inj (Option.some.inj he)
    exact h
  | succ n ih =>
    rw [memoryCreateMap] at he
    cases hfind : findPte s L.kernelPageDir v true with
    | mk pte s₁ =>
      obtain ⟨h₁, hpte⟩ := findPte_kernelPdes himage h hv hfind
      rw [hfind] at he
      simp only at he
      split at he
      · obtain ⟨-, rfl⟩ := Prod.mk.inj (Option.some.inj he)
        exact h₁
      rename_i hpos
      split at he
      · cases he
      -- The entry is stored above the image, and the loop goes on.
      exact ih (h₁.store himage (hpte hpos)) (toU32_lt _) he

/-- No entry of the directory forbids writing after the loop of `create_kernel_table`. -/
theorem createKernelMaps_kernelPdes (hok : ∀ map ∈ maps, MapOk map)
    (he : createKernelMaps L s maps = some s') : KernelPdes L s' := by
  induction maps generalizing s with
  | nil =>
    obtain rfl := Option.some.inj he
    exact h
  | cons map maps ih =>
    rw [(hok map (by simp)).createKernelMaps_cons] at he
    obtain ⟨r, hr, he⟩ := Option.bind_eq_some_iff.mp he
    exact ih (memoryCreateMap_kernelPdes himage h (toU32_lt _) hr)
      (fun map hm => hok map (by simp [hm])) he

end Pdes

/-! ### What a range covers -/

/-- The address lies in the range, rounded outward to pages. -/
def MemoryMap.Covers (map : MemoryMap) (v : Nat) : Prop :=
  down2 map.vstart memPageSize ≤ v ∧ v < up2 map.vend memPageSize

theorem MapOk.covers_iff (h : MapOk map) :
    map.Covers v ↔ map.first ≤ v / 4096 ∧ v / 4096 < map.behind := by
  have hvend := h.vend
  have hv : down2 map.vstart memPageSize = map.first * 4096 := h.call.1
  have hu : up2 map.vend memPageSize = map.behind * 4096 := up2_page (by omega)
  unfold MemoryMap.Covers
  rw [hv, hu]
  omega

/-- The ranges are mapped to themselves. -/
theorem kernelMap_identity : ∀ map ∈ kernelMap L, map.pstart = map.vstart := by
  intro map hm
  unfold kernelMap at hm
  simp only [List.mem_cons, List.not_mem_nil, or_false] at hm
  rcases hm with rfl | rfl | rfl | rfl | rfl <;> rfl

/-- The entry of a page of a range. -/
theorem RowsMapped.walk_eq (h : RowsMapped L m maps m') (hm : map ∈ maps) (hmap : MapOk map)
    (hid : map.pstart = map.vstart) (hc : map.Covers v) :
    walk m' L.kernelPageDir v = some (v / 4096 * 4096 ||| map.perm ||| pteP) := by
  obtain ⟨h₁, h₂⟩ := hmap.covers_iff.mp hc
  have hpstart : down2 map.pstart memPageSize = map.first * 4096 := by
    rw [hid]
    exact hmap.call.1
  have hpage := hmap.page (k := v / 4096 - map.first) (by omega)
  have hphys : physPage (map.first * 4096) (v / 4096 - map.first) = v / 4096 * 4096 := by
    unfold physPage
    omega
  rw [walk_page (w := map.first * 4096 + 4096 * (v / 4096 - map.first)) (by omega),
    h.pages map hm _ (by omega), hpstart, hphys]

/-- The directory of the kernel maps the addresses that the ranges cover, and no others. They
translate to the physical address of their range at the same offset. The kernel may write to them
when the range says so. -/
structure MapsKernel (L : Layout) (m : Mem) : Prop where
  mapped : ∀ v < 2 ^ 32,
    mmuTranslate m L.kernelPageDir v ≠ none ↔ ∃ map ∈ kernelMap L, map.Covers v
  address : ∀ map ∈ kernelMap L, ∀ v < 2 ^ 32, map.Covers v →
    mmuTranslate m L.kernelPageDir v
      = some (down2 map.pstart memPageSize + (v - down2 map.vstart memPageSize))
  writes : ∀ map ∈ kernelMap L, ∀ v < 2 ^ 32, map.Covers v →
    (MmuWritable m L.kernelPageDir v ↔ map.perm &&& pteW ≠ 0)

/-- Together the ranges cover what the kernel maps. There is no gap between its code and its
data. -/
theorem covers_iff_mapped (hL : L.sData < memEbdaStart) :
    (∃ map ∈ kernelMap L, map.Covers v) ↔ KernelMapped v := by
  have hok := kernelMap_ok hL
  unfold kernelMap at hok ⊢
  simp only [List.mem_cons, List.not_mem_nil, or_false, exists_eq_or_imp, exists_eq_left,
    forall_eq_or_imp, forall_eq] at hok ⊢
  obtain ⟨h₁, h₂, h₃, h₄, h₅⟩ := hok
  have htext := L.text
  rw [h₁.covers_iff, h₂.covers_iff, h₃.covers_iff, h₄.covers_iff, h₅.covers_iff]
  unfold MemoryMap.first MemoryMap.behind KernelMapped
  unfold Layout.sData memEbdaStart at hL
  simp only [Layout.kernelBase, Layout.sText, Layout.sData, memEbdaStart, consoleDispAddr,
    consoleDispEnd, memExtStart, memExtEnd]
  omega

/-- The directory of the kernel translates an address that the kernel maps to itself, and no
other. -/
theorem MapsKernel.translate (h : MapsKernel L m) (hL : L.sData < memEbdaStart)
    (hv : v < 2 ^ 32) :
    mmuTranslate m L.kernelPageDir v = if KernelMapped v then some v else none := by
  have hmapped := (h.mapped v hv).trans (covers_iff_mapped hL)
  by_cases hk : KernelMapped v
  · obtain ⟨map, hm, hc⟩ := (covers_iff_mapped hL).mpr hk
    have hlow : down2 map.vstart memPageSize ≤ v := hc.1
    rw [if_pos hk, h.address map hm v hv hc, kernelMap_identity map hm,
      Nat.add_sub_cancel' hlow]
  · rw [if_neg hk]
    by_contra hsome
    exact hk (hmapped.mp hsome)

/-- The pages of the ranges, in the words of the processor. -/
theorem RowsMapped.mapsKernel (hL : L.sData < memEbdaStart)
    (hwrites : ∀ i < 1024, tableAt m' L.kernelPageDir i ≠ none →
      writable (entryAt m' L.kernelPageDir i) = true)
    (hclear : ∀ v < 2 ^ 32, walk m L.kernelPageDir v = none)
    (h : RowsMapped L m (kernelMap L) m') : MapsKernel L m' := by
  have hwalk : ∀ map ∈ kernelMap L, ∀ v, map.Covers v → walk m' L.kernelPageDir v
      = some (v / 4096 * 4096 ||| map.perm ||| pteP) := fun map hm v hc =>
    h.walk_eq hm (kernelMap_ok hL map hm) (kernelMap_identity map hm) hc
  have hfields : ∀ map ∈ kernelMap L, ∀ v : Nat,
      ptePaddr (v / 4096 * 4096 ||| map.perm ||| pteP) = v / 4096 * 4096 := fun map hm v =>
    (entry_fields (Nat.mul_mod_left _ _) (kernelMap_ok hL map hm).perm).2.1
  refine ⟨fun v hv => ⟨fun hsome => ?_, ?_⟩, ?_, ?_⟩
  · -- An address outside all ranges is not mapped, as before.
    by_contra hnot
    refine hsome ?_
    rw [mmuTranslate_eq, h.others v hv ?_, hclear v hv]
    · rfl
    · intro map hm
      by_contra hin
      exact hnot ⟨map, hm, (kernelMap_ok hL map hm).covers_iff.mpr (by omega)⟩
  · rintro ⟨map, hm, hc⟩
    rw [mmuTranslate_eq, hwalk map hm v hc]
    exact Option.some_ne_none _
  · -- The range and its physical pages are rounded down alike.
    intro map hm v hv hc
    have hmap := kernelMap_ok hL map hm
    have hfirst : down2 map.vstart memPageSize = map.first * 4096 := hmap.call.1
    have hin := hmap.covers_iff.mp hc
    have hoffset : v / 4096 * 4096 + v % 4096 = map.first * 4096 + (v - map.first * 4096) := by
      omega
    rw [mmuTranslate_eq, hwalk map hm v hc, Option.map_some, hfields map hm v,
      kernelMap_identity map hm, hfirst, hoffset]
  · -- The directory never forbids writing, so the permission of the range decides.
    intro map hm v hv hc
    obtain ⟨htable, hpte⟩ := words_of_walk (hwalk map hm v hc)
    have hpde : writable (pdeOf m' L.kernelPageDir v) = true :=
      hwrites _ (pdeIndex_lt hv) (by rw [htable]; exact Option.some_ne_none _)
    have hsome : mmuTranslate m' L.kernelPageDir v ≠ none := by
      rw [mmuTranslate_eq, hwalk map hm v hc]
      exact Option.some_ne_none _
    unfold MmuWritable
    rw [hpte, hpde, writable_entry (Nat.mul_mod_left _ _) (kernelMap_ok hL map hm).perm]
    exact ⟨fun hw => hw.2.2, fun hw => ⟨hsome, rfl, hw⟩⟩

/-! ### `create_kernel_table` -/

/-- The number of free frames that lie below an address. -/
def freeBelow (a : AddrAlloc) (bound : Nat) : Nat :=
  ((Finset.range a.pages).filter fun i =>
    bitmapGetBit a.bitmap i = 0 ∧ a.start + i * a.pageSize < bound).card

/-- There are no more free frames than frames. -/
theorem freeBelow_le (a : AddrAlloc) (bound : Nat) : freeBelow a bound ≤ a.pages := by
  have hcard := Finset.card_filter_le (Finset.range a.pages) fun i =>
    bitmapGetBit a.bitmap i = 0 ∧ a.start + i * a.pageSize < bound
  rw [Finset.card_range] at hcard
  exact hcard

/-- The free frames below 4 MB are the free ones of the first 768 frames. -/
theorem freeCount_cut (hstart : a.start = memExtStart) (hpage : a.pageSize = memPageSize) :
    freeCount (a.cut (min a.pages 768)) = freeBelow a 0x400000 := by
  have hpages : (a.cut (min a.pages 768)).pages = min a.pages 768 := Int.toNat_natCast _
  unfold freeCount freeBelow
  rw [hpages, hstart, hpage]
  congr 1
  ext i
  simp only [Finset.mem_filter, Finset.mem_range, cut_getBit]
  unfold memExtStart memPageSize
  omega

/-- `create_kernel_table` never finds a page of its ranges mapped already, and the directory that
it leaves is exactly the table of the ranges. The directory lies in the image below the frames,
and 32 free frames below 4 MB are as many as there are tables. -/
theorem createKernelTable_exact (hL : L.sData < memEbdaStart)
    (himage : L.kernelPageDir + 4096 ≤ memExtStart)
    (hstart : s.paddrAlloc.start = memExtStart) (hpage : s.paddrAlloc.pageSize = memPageSize)
    (hframes : 32 ≤ freeBelow s.paddrAlloc 0x400000) :
    ∃ s', createKernelTable L s = some s' ∧ MapsKernel L s'.mem := by
  -- There are frames, so the number of bits is not negative.
  have hcount : (min s.paddrAlloc.pages 768 : Nat) ≤ s.paddrAlloc.bitmap.bitCount := by
    have hpos := freeBelow_le s.paddrAlloc 0x400000
    unfold AddrAlloc.pages at hpos ⊢
    omega
  have hfew : min s.paddrAlloc.pages 768 ≤ 32512 := by omega
  obtain ⟨s', he, hcut, hrows⟩ := createKernelTable_rows hL himage hstart hpage hfew hcount
    (by rw [freeCount_cut hstart hpage]; exact hframes)
  -- In front of the loop the directory is empty, so none of its entries forbids writing.
  have hempty : KernelPdes L ((s.clearDir L).cut (min s.paddrAlloc.pages 768)) :=
    ⟨cut_shape hstart hpage hfew, fun i hi t ht => absurd (ht.symm.trans (clearDir_tables s i hi))
      (Option.some_ne_none t), fun i hi ht => absurd (clearDir_tables s i hi) ht⟩
  have hpdes := createKernelMaps_kernelPdes himage hempty (kernelMap_ok hL) hcut
  exact ⟨s', he, RowsMapped.mapsKernel hL hpdes.writes (fun v hv => clearDir_walk s hv) hrows⟩

/-- 32 free frames, and nothing else, are enough. -/
theorem createKernelTable_exact_32 :
    ∃ s', createKernelTable smallLayout (freeSpace 32) = some s' ∧ MapsKernel smallLayout s'.mem :=
  createKernelTable_exact (by decide) (by decide) rfl rfl (by decide +kernel)

/-! ### The kernel's pointers -/

/-- When `create_kernel_table` has found its frames, a pointer of the kernel is translated, in every
state that the operations reach and in every address space, as the processor does it. -/
theorem kernelAddr_eq_translate {s₀ : MemState} {c : MemSys} {ls : List MemLabel}
    (h₀ : MemInv L s₀ [] []) (hmaps : MapsKernel L s₀.mem) (hL : L.sData < memEbdaStart)
    (hcalls : Meets (memStep L) MemCall ⟨s₀, [], []⟩ ls)
    (hrun : run (memStep L) ⟨s₀, [], []⟩ ls = some c) (hd : d ∈ c.live) (hv : v < 2 ^ 32) :
    kernelAddr d c.state.mem v = mmuTranslate c.state.mem d v := by
  obtain ⟨hinv, hsame⟩ := run_kernelPages h₀ hcalls hrun
  unfold kernelAddr
  split
  · -- The kernel half is the one of `kernel_page_dir` after `memory_init`.
    rename_i hlow
    have hwalk : walk c.state.mem d v = walk s₀.mem L.kernelPageDir v :=
      (hinv.walk_kernel hd hlow).trans (hsame.pages _ (pdeIndex_lt hv) _ (pteIndex_lt v))
    rw [mmuTranslate_eq, hwalk, ← mmuTranslate_eq, hmaps.translate hL hv]
  · rfl

end StartKernel
