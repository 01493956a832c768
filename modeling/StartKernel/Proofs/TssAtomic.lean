import StartKernel.Proofs.TaskStart
import StartKernel.Proofs.TssInit

/-!
# `StartKernel.Proofs.TssAtomic`: `tss_init` takes all or nothing

For any state of the page allocator whose managed range lies below the user half, not only for
those that the memory operations reach.

* `bitmapSetBit_undo`: a bit that was taken and is given back leaves the bytes as they were.
* `addrAllocPage_takes`, `addrFreePage_undo`: one page is taken, and given back.
* `tssInit_atomic`: a failed call leaves both allocators as they were, and a call that succeeds
  records what it took.
-/

set_option autoImplicit false

namespace StartKernel

open FirstFit (Fits First)
open Function (update)

/-! ### One page -/

variable {a : AddrAlloc} {b : Bitmap} {i j : Nat}

/-- A bit that was taken and is given back leaves the bytes as they were. -/
theorem bitmapSetBit_undo (hin : (i : Int) < b.bitCount) (hfree : bitmapGetBit b i = 0) :
    bitmapSetBit (bitmapSetBit b i 1 (-1)) i 1 0 = b := by
  have hbits : ∀ j, bitmapGetBit (bitmapSetBit (bitmapSetBit b i 1 (-1)) i 1 0) j
      = bitmapGetBit b j := by
    intro j
    rw [bitmapGetBit_set, bitmapGetBit_set, bitmapSetBit_bitCount]
    by_cases hj : j = i
    · subst hj
      rw [if_pos ⟨Nat.le_refl j, by omega, hin⟩, hfree]
      rfl
    · rw [if_neg (by omega), if_neg (by omega)]
  have hcount : (bitmapSetBit (bitmapSetBit b i 1 (-1)) i 1 0).bitCount = b.bitCount := by
    rw [bitmapSetBit_bitCount, bitmapSetBit_bitCount]
  exact bitmap_ext hcount hbits

/-- One page is taken, or none is free and nothing changes. -/
theorem addrAllocPage_takes (h : AllocShape a) :
    (∃ i < a.pages, bitmapGetBit a.bitmap i = 0 ∧
      addrAllocPage a 1 = (a.start + i * a.pageSize,
        { a with bitmap := bitmapSetBit a.bitmap i 1 (-1) })) ∨
    (addrAllocPage a 1 = (0, a) ∧ ∀ i < a.pages, bitmapGetBit a.bitmap i ≠ 0) := by
  rcases addrAllocPage_cases h (Nat.le_refl 1) with ⟨i, hi, he⟩ | ⟨hnone, he⟩
  · have hin : i + 1 ≤ a.pages := hi.inside
    exact Or.inl ⟨i, hin, hi.all 0 (by omega), he⟩
  · refine Or.inr ⟨he, fun i hi hfree => hnone i ⟨hi, fun j hj => ?_⟩⟩
    obtain rfl : j = 0 := by omega
    exact hfree

/-- A page lies in the managed range. -/
theorem AllocShape.page_inside (h : AllocShape a) (hi : i < a.pages) :
    a.start + i * a.pageSize + a.pageSize ≤ a.start + a.size := by
  have hsize : a.pages * a.pageSize ≤ a.size := by
    unfold AddrAlloc.pages at hi ⊢
    rcases h.bitCount with hb | hb <;> omega
  have hmul : (i + 1) * a.pageSize ≤ a.pages * a.pageSize := Nat.mul_le_mul_right _ hi
  rw [Nat.add_mul, Nat.one_mul] at hmul
  omega

/-- A page that was taken is given back. -/
theorem addrFreePage_undo (h : AllocShape a) (hi : i < a.pages)
    (hfree : bitmapGetBit a.bitmap i = 0) :
    addrFreePage { a with bitmap := bitmapSetBit a.bitmap i 1 (-1) } (a.start + i * a.pageSize) 1
      = a := by
  have hinside := h.page_inside hi
  have hfits := h.fits
  have hps := h.pageSize
  have hin := lt_pages_iff.mp hi
  -- The address is turned back into the index.
  rw [addrFreePage_above (Nat.le_add_right _ _) (by simp only; omega)]
  simp only
  rw [Nat.add_sub_cancel_left, Nat.mul_div_cancel i hps]
  rw [bitmapSetBit_undo hin hfree]

/-- The bits after one page was taken. -/
theorem getBit_taken (hi : i < a.pages) (j : Nat) :
    bitmapGetBit (bitmapSetBit a.bitmap i 1 (-1)) j
      = if j = i then 1 else bitmapGetBit a.bitmap j := by
  have hin := lt_pages_iff.mp hi
  rw [bitmapGetBit_set]
  by_cases hj : j = i
  · subst hj
    rw [if_pos ⟨Nat.le_refl j, by omega, hin⟩, if_pos rfl, if_pos (by decide)]
  · rw [if_neg (by omega), if_neg hj]

/-! ### `tss_init` -/

variable {T M S : Type} [DecidableEq T] [HasTss T] {L : Layout} {k k' : Kernel T M S} {t : T}

/-- What a successful `tss_init` took for the task `t`, and where it is recorded: the descriptor
`i`, and the pages with the numbers `p` and `d`. -/
structure TssTook (k : Kernel T M S) (t : T) (k' : Kernel T M S) (i p d : Nat) : Prop where
  entry : 1 ≤ i ∧ i < gdtTableSize
  entryFree : (k.gdtTable i).attr = 0
  entryTaken : (k'.gdtTable i).attr ≠ 0
  entries : ∀ j, j ≠ i → k'.gdtTable j = k.gdtTable j
  stack : p < k.memory.paddrAlloc.pages
  dir : d < k.memory.paddrAlloc.pages
  distinct : p ≠ d
  stackFree : bitmapGetBit k.memory.paddrAlloc.bitmap p = 0
  dirFree : bitmapGetBit k.memory.paddrAlloc.bitmap d = 0
  bits : ∀ j, bitmapGetBit k'.memory.paddrAlloc.bitmap j
    = if j = p ∨ j = d then 1 else bitmapGetBit k.memory.paddrAlloc.bitmap j
  record : ∃ v, k'.sched = k.sched.setTask t v ∧ v.tssSel = i * segmentDescSize ∧
    v.tss.esp0 = k.memory.paddrAlloc.start + p * k.memory.paddrAlloc.pageSize + memPageSize ∧
    v.tss.cr3 = k.memory.paddrAlloc.start + d * k.memory.paddrAlloc.pageSize

/-- There is room for the context of a task: a free descriptor and two free pages. -/
def TssRoom (k : Kernel T M S) : Prop :=
  FreeDesc k.gdtTable ∧ ∃ p < k.memory.paddrAlloc.pages, ∃ d < k.memory.paddrAlloc.pages, p ≠ d ∧
    bitmapGetBit k.memory.paddrAlloc.bitmap p = 0 ∧ bitmapGetBit k.memory.paddrAlloc.bitmap d = 0

/-- What a failed `tss_init` leaves: the free descriptors and the bitmap as they were. -/
structure TssUndone (k k' : Kernel T M S) : Prop where
  entries : ∀ j, (k'.gdtTable j).attr = (k.gdtTable j).attr
  bitmap : k'.memory.paddrAlloc.bitmap = k.memory.paddrAlloc.bitmap

/-- What `memory_create_uvm` takes: one page, or nothing. -/
theorem memoryCreateUvm_takes (L : Layout) {s : MemState} (h : AllocShape s.paddrAlloc) :
    (∃ d < s.paddrAlloc.pages, bitmapGetBit s.paddrAlloc.bitmap d = 0 ∧
      (memoryCreateUvm L s).1 = s.paddrAlloc.start + d * s.paddrAlloc.pageSize ∧
      (memoryCreateUvm L s).2.paddrAlloc
        = { s.paddrAlloc with bitmap := bitmapSetBit s.paddrAlloc.bitmap d 1 (-1) }) ∨
    (memoryCreateUvm L s = (0, s) ∧
      ∀ d < s.paddrAlloc.pages, bitmapGetBit s.paddrAlloc.bitmap d ≠ 0) := by
  unfold memoryCreateUvm MemState.allocPage
  rcases addrAllocPage_takes h with ⟨d, hd, hfree, he⟩ | ⟨he, hnone⟩
  · have hpos : s.paddrAlloc.start + d * s.paddrAlloc.pageSize ≠ 0 := by
      have hstart := h.start
      omega
    left
    simp only [he, if_neg hpos]
    exact ⟨d, hd, hfree, rfl, rfl⟩
  · right
    simp only [he, if_true]
    exact ⟨trivial, hnone⟩

/-- The two ways in which `tss_init` ends, in any state of the two allocators. -/
theorem tssInit_ends (L : Layout) (h : AllocShape k.memory.paddrAlloc)
    (hbelow : k.memory.paddrAlloc.start + k.memory.paddrAlloc.size ≤ memoryTaskBase) (t : T)
    (flag : Int) (entry esp : Nat) :
    (∃ k' i p d, tssInit L k t flag entry esp = some (0, k') ∧ TssTook k t k' i p d) ∨
    (∃ k', tssInit L k t flag entry esp = some (-1, k') ∧ TssUndone k k' ∧ ¬ TssRoom k) := by
  unfold tssInit
  rcases gdtAllocDesc_cases k.gdtTable with ⟨i, hlow, hhigh, hfree, hsel⟩ | ⟨hsel, hnone⟩
  swap
  · -- No descriptor is free.
    right
    rw [hsel]
    exact ⟨k, rfl, ⟨fun _ => rfl, rfl⟩, fun hroom => hnone hroom.1⟩
  obtain ⟨desc, hdesc, htss⟩ := segmentDescSet_taken k.gdtTable hhigh (HasTss.tssAddr_lt t)
  obtain ⟨hattr, -⟩ := gdtFreeSel_restores hhigh hfree desc
  simp only [hsel, if_neg (sel_nonneg i), Kernel.setTss, memoryAllocPage, MemState.allocPage, hdesc]
  rcases addrAllocPage_takes h with ⟨p, hp, hpfree, hstack⟩ | ⟨hstack, hnone⟩
  swap
  · -- No page is free for the kernel stack.
    right
    simp only [hstack, if_true]
    refine ⟨_, rfl, ⟨hattr, rfl⟩, ?_⟩
    rintro ⟨-, p, hp, -, -, -, hpfree, -⟩
    exact hnone p hp hpfree
  have hpage := h.page_inside hp
  have hstart := h.start
  have hp0 : k.memory.paddrAlloc.start + p * k.memory.paddrAlloc.pageSize ≠ 0 := by omega
  simp only [hstack, if_neg hp0]
  have hshape := h.setBit p 1 (-1)
  rcases memoryCreateUvm_takes L
      (s := { k.memory with paddrAlloc := { k.memory.paddrAlloc with
        bitmap := bitmapSetBit k.memory.paddrAlloc.bitmap p 1 (-1) } }) hshape with
    ⟨d, hd, hdfree, hret, halloc⟩ | ⟨hdir, hnone⟩
  · left
    have hd0 : k.memory.paddrAlloc.start + d * k.memory.paddrAlloc.pageSize ≠ 0 := by omega
    have hd' : d < k.memory.paddrAlloc.pages := by rwa [pages_setBit] at hd
    -- The bit of the kernel stack is set, so the page directory is another page.
    simp only [getBit_taken hp] at hdfree
    have hne : p ≠ d := by
      rintro rfl
      rw [if_pos rfl] at hdfree
      exact absurd hdfree (by decide)
    rw [if_neg hne.symm] at hdfree
    simp only [hret, if_neg hd0, setTask_setTask, setTask_self]
    refine ⟨_, i, p, d, rfl, ⟨hlow, hhigh⟩, hfree, ?_, fun j hj => ?_, hp, hd', hne, hpfree,
      hdfree, fun j => ?_, _, rfl, sel_uint16 hhigh, ?_, rfl⟩
    · show (update k.gdtTable i desc i).attr ≠ 0
      rw [Function.update_self, htss.attr]
      decide
    · exact Function.update_of_ne hj desc k.gdtTable
    · simp only [halloc]
      have hbit := getBit_taken (a := { k.memory.paddrAlloc with
        bitmap := bitmapSetBit k.memory.paddrAlloc.bitmap p 1 (-1) }) hd j
      rw [hbit, getBit_taken hp]
      by_cases hjd : j = d <;> by_cases hjp : j = p <;> simp [hjd, hjp]
    · show toU32 (((k.memory.paddrAlloc.start + p * k.memory.paddrAlloc.pageSize : Nat) : Int)
        + memPageSize) = _
      rw [← Nat.cast_add]
      refine toU32_natCast ?_
      unfold memoryTaskBase at hbelow
      unfold memPageSize
      omega
  · -- The kernel stack was the last free page. It is given back.
    right
    have hplow : k.memory.paddrAlloc.start + p * k.memory.paddrAlloc.pageSize < memoryTaskBase := by
      have hps := h.pageSize
      omega
    simp only [hdir, if_true, setTask_setTask, setTask_self]
    rw [tssInitFailed_page hp0 hplow]
    refine ⟨_, rfl, ⟨hattr, ?_⟩, ?_⟩
    · show (addrFreePage _ _ 1).bitmap = _
      rw [addrFreePage_undo h hp hpfree]
    · -- Of two free pages one would have been left.
      rintro ⟨-, p₁, hp₁, p₂, hp₂, hne, hfree₁, hfree₂⟩
      simp only [pages_setBit, getBit_taken hp] at hnone
      have hleft₁ := hnone p₁ hp₁
      have hleft₂ := hnone p₂ hp₂
      split at hleft₁
      · split at hleft₂
        · omega
        · exact hleft₂ hfree₂
      · exact hleft₁ hfree₁

/-- `tss_init` is atomic. For every state of the descriptor table and of a page allocator whose
managed range lies below the user half, it returns. When it returns -1, there was no free descriptor
or there were no two free pages, and the free descriptors and the bitmap are as they were. When it
returns 0, it took one descriptor and two distinct pages, and the task records them. -/
theorem tssInit_atomic (L : Layout) (h : AllocShape k.memory.paddrAlloc)
    (hbelow : k.memory.paddrAlloc.start + k.memory.paddrAlloc.size ≤ memoryTaskBase) (t : T)
    (flag : Int) (entry esp : Nat) :
    ∃ ret k', tssInit L k t flag entry esp = some (ret, k') ∧
      ((ret = -1 ∧ (∀ j, (k'.gdtTable j).attr = 0 ↔ (k.gdtTable j).attr = 0) ∧
        k'.memory.paddrAlloc.bitmap = k.memory.paddrAlloc.bitmap ∧ ¬ TssRoom k) ∨
      (ret = 0 ∧ ∃ i p d, TssTook k t k' i p d)) := by
  rcases tssInit_ends L h hbelow t flag entry esp with
    ⟨k', i, p, d, he, htook⟩ | ⟨k', he, hundone, hroom⟩
  · exact ⟨0, k', he, Or.inr ⟨rfl, i, p, d, htook⟩⟩
  · refine ⟨-1, k', he, Or.inl ⟨rfl, fun j => ?_, hundone.bitmap, hroom⟩⟩
    rw [hundone.entries]

/-- The kernel of the examples with one free page has no page for the directory. With two free pages
the call takes a descriptor and both pages. -/
theorem tssInit_atomic_one_page :
    (∃ k', tssInit smallLayout (bootKernel 2) 1 0 0x80000000 0x8000A000 = some (-1, k') ∧
      (∀ j, (k'.gdtTable j).attr = 0 ↔ ((bootKernel 2).gdtTable j).attr = 0) ∧
      k'.memory.paddrAlloc.bitmap = (bootKernel 2).memory.paddrAlloc.bitmap ∧
      ¬ TssRoom (bootKernel 2)) ∧
    ∃ k', tssInit smallLayout (bootKernel 3) 1 0 0x80000000 0x8000A000 = some (0, k') ∧
      ∃ i p d, TssTook (bootKernel 3) 1 k' i p d := by
  have hshape : ∀ frames, 1 ≤ frames → frames ≤ 32512 →
      AllocShape (bootKernel frames).memory.paddrAlloc := fun frames h₁ h₂ =>
    (oneSpace_inv h₁ h₂).shape.allocShape
  obtain ⟨ret, k', he, hone⟩ := tssInit_atomic smallLayout
    (hshape 2 (by decide) (by decide)) (by decide) 1 0 0x80000000 0x8000A000
  obtain ⟨ret', k'', he', htwo⟩ := tssInit_atomic smallLayout
    (hshape 3 (by decide) (by decide)) (by decide) 1 0 0x80000000 0x8000A000
  refine ⟨?_, ?_⟩
  · rcases hone with ⟨rfl, hundone⟩ | ⟨rfl, i, p, d, htook⟩
    · exact ⟨k', he, hundone⟩
    · -- Of the two pages only the page 1 is free.
      have hp := htook.stack
      have hd := htook.dir
      have hne := htook.distinct
      have hpfree := htook.stackFree
      have hdfree := htook.dirFree
      have hpages : (bootKernel 2).memory.paddrAlloc.pages = 2 := by decide +kernel
      have hbit : bitmapGetBit (bootKernel 2).memory.paddrAlloc.bitmap 0 ≠ 0 := by decide +kernel
      rcases Nat.eq_zero_or_pos p with rfl | hpos
      · exact absurd hpfree hbit
      · obtain rfl : d = 0 := by omega
        exact absurd hdfree hbit
  · rcases htwo with ⟨-, -, -, hroom⟩ | ⟨rfl, htook⟩
    · refine absurd ⟨⟨4, ?_⟩, 1, ?_⟩ hroom <;> decide +kernel
    · exact ⟨k'', he', htook⟩

end StartKernel
