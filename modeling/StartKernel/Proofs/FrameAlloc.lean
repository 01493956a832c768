import Mathlib.Data.Finset.Card
import StartKernel.Abs.AddressSpace
import StartKernel.Proofs.AddrAlloc

/-!
# `StartKernel.Proofs.FrameAlloc`: single frames of the page allocator

The memory functions take frames from `paddr_alloc` one at a time.

* `addrAllocPage_one`: a call takes a free frame (`Allocated`), or there is none.
* `addrFreePage_one`: a frame is given back.
* `addrFreePage_user`: giving back an address of the user half changes nothing, since it is above
  the managed range.
-/

set_option autoImplicit false

namespace StartKernel

open FirstFit (Fits First)

variable {a a' : AddrAlloc} {f g : Nat}

/-- A page-aligned address above 1 MB in the part of memory that the kernel maps. -/
structure IsFrame (f : Nat) : Prop where
  aligned : f % 4096 = 0
  above : 0x100000 ≤ f
  below : f + 4096 ≤ 0x8000000

/-- A frame is not the address 0, with which the allocator fails. -/
theorem IsFrame.ne_zero (h : IsFrame f) : f ≠ 0 := by
  have habove := h.above
  omega

/-- A frame is not the error of `memory_copy_uvm` and `memory_create_uvm`. -/
theorem IsFrame.ne_error (h : IsFrame f) : f ≠ toU32 (-1) := by
  have hbelow := h.below
  have herr : toU32 (-1) = 4294967295 := by decide
  omega

/-- A frame lies below the user half. -/
theorem IsFrame.below_user (h : IsFrame f) : f < memoryTaskBase := by
  have hbelow := h.below
  unfold memoryTaskBase
  omega

/-- The number of free frames. -/
def freeCount (a : AddrAlloc) : Nat :=
  ((Finset.range a.pages).filter fun i => bitmapGetBit a.bitmap i = 0).card

/-- The frame `f` was taken, and `a'` is the allocator after it. -/
structure Allocated (a : AddrAlloc) (f : Nat) (a' : AddrAlloc) : Prop where
  shape : PallocShape a'
  frame : IsFrame f
  fresh : ¬ Taken a f
  taken : ∀ g, Taken a' g ↔ Taken a g ∨ g = f
  count : freeCount a = freeCount a' + 1

theorem PallocShape.allocShape (h : PallocShape a) : AllocShape a := by
  have hwhole := h.whole
  have hcount := h.bitCount
  have hfits := h.fits
  have hstart := h.start
  unfold memPageSize memExtStart memExtEnd at *
  refine ⟨by rw [h.pageSize]; decide, by omega, by omega, Or.inr ?_⟩
  rw [hcount, h.pageSize]
  unfold memPageSize
  omega

/-- The number of frames. -/
theorem PallocShape.pages_eq (h : PallocShape a) : a.pages = a.size / 4096 := by
  unfold AddrAlloc.pages
  rw [h.bitCount]
  rfl

theorem PallocShape.setBit (h : PallocShape a) (i n : Nat) (bit : Int) :
    PallocShape { a with bitmap := bitmapSetBit a.bitmap i n bit } :=
  ⟨h.start, h.pageSize, h.whole, by simpa using h.bitCount, h.fits⟩

/-- A frame is taken when its bit is set. -/
theorem taken_iff (h : PallocShape a) :
    Taken a f ↔ ∃ i < a.pages, f = 0x100000 + i * 4096 ∧ Used a i := by
  have hstart : a.start = 0x100000 := h.start
  have hsize : a.pageSize = 4096 := h.pageSize
  unfold Taken Used
  rw [hstart, hsize]
  simp only [lt_pages_iff]

/-- The address of an index of the bitmap. -/
theorem PallocShape.isFrame (h : PallocShape a) {i : Nat} (hi : i < a.pages) :
    IsFrame (0x100000 + i * 4096) := by
  have hwhole := h.whole
  have hfits := h.fits
  have hstart := h.start
  rw [h.pages_eq] at hi
  unfold memPageSize memExtStart memExtEnd at *
  exact ⟨by omega, by omega, by omega⟩

/-- Taken frames lie in the managed range. -/
theorem Taken.isFrame (hf : Taken a f) (h : PallocShape a) : IsFrame f := by
  obtain ⟨i, hi, rfl, -⟩ := (taken_iff h).mp hf
  exact h.isFrame hi

/-- A bit is 0 or set. -/
theorem bit_zero_iff {i : Nat} : bitmapGetBit a.bitmap i = 0 ↔ ¬ Used a i :=
  agrees_zero_iff

/-- Taking a free bit takes one off the number of free frames. -/
theorem freeCount_set {i : Nat} (hi : i < a.pages) (hfree : ¬ Used a i) :
    freeCount a = freeCount { a with bitmap := bitmapSetBit a.bitmap i 1 (-1) } + 1 := by
  have hmem : i ∈ (Finset.range a.pages).filter fun j => bitmapGetBit a.bitmap j = 0 := by
    rw [Finset.mem_filter, Finset.mem_range, bit_zero_iff]
    exact ⟨hi, hfree⟩
  -- The free bits afterwards are the free bits before without the bit `i`.
  have hset : ((Finset.range a.pages).filter fun j =>
      bitmapGetBit (bitmapSetBit a.bitmap i 1 (-1)) j = 0)
        = ((Finset.range a.pages).filter fun j => bitmapGetBit a.bitmap j = 0).erase i := by
    ext j
    rw [Finset.mem_erase, Finset.mem_filter, Finset.mem_filter, Finset.mem_range]
    by_cases hj : j < a.pages
    · have hused := used_set_iff (a := a) (i := i) (n := 1) hj
      have hz := bit_zero_iff (a := { a with bitmap := bitmapSetBit a.bitmap i 1 (-1) }) (i := j)
      have hcov : Ranges.Covers (i, 1) j ↔ j = i := by
        unfold Ranges.Covers
        omega
      rw [hz, hused, bit_zero_iff, hcov]
      tauto
    · simp [hj]
  unfold freeCount
  rw [pages_setBit]
  show _ = ((Finset.range a.pages).filter fun j =>
      bitmapGetBit (bitmapSetBit a.bitmap i 1 (-1)) j = 0).card + 1
  rw [hset, Finset.card_erase_of_mem hmem]
  have hpos := Finset.card_pos.mpr ⟨i, hmem⟩
  omega

/-- One call of the allocator for one frame. -/
theorem addrAllocPage_one (h : PallocShape a) :
    (∃ f a', addrAllocPage a 1 = (f, a') ∧ Allocated a f a') ∨
    (addrAllocPage a 1 = (0, a) ∧ freeCount a = 0) := by
  have hstart : a.start = 0x100000 := h.start
  have hsize : a.pageSize = 4096 := h.pageSize
  rcases addrAllocPage_cases h.allocShape (Nat.le_refl 1) with ⟨i, hi, he⟩ | ⟨hno, he⟩
  · left
    have hlt : i < a.pages := by
      have := hi.inside
      omega
    have hfree : ¬ Used a i := agrees_zero_iff.mp (hi.all 0 (by omega))
    have hshape := h.setBit i 1 (-1)
    have haddr : a.start + i * a.pageSize = 0x100000 + i * 4096 := by rw [hstart, hsize]
    rw [haddr] at he
    refine ⟨_, _, he, hshape, h.isFrame hlt, ?_, fun g => ?_, freeCount_set hlt hfree⟩
    · intro ht
      obtain ⟨j, -, hj, hused⟩ := (taken_iff h).mp ht
      obtain rfl : i = j := by omega
      exact hfree hused
    · rw [taken_iff hshape, taken_iff h, pages_setBit]
      constructor
      · rintro ⟨j, hj, rfl, hused⟩
        rcases (used_set_iff hj).mp hused with hold | hnew
        · exact Or.inl ⟨j, hj, rfl, hold⟩
        · unfold Ranges.Covers at hnew
          right
          omega
      · rintro (⟨j, hj, rfl, hused⟩ | rfl)
        · exact ⟨j, hj, rfl, (used_set_iff hj).mpr (Or.inl hused)⟩
        · refine ⟨i, hlt, rfl, (used_set_iff hlt).mpr (Or.inr ?_)⟩
          unfold Ranges.Covers
          omega
  · -- A free bit would be a run of length 1, which the search finds.
    right
    refine ⟨he, ?_⟩
    unfold freeCount
    rw [Finset.card_eq_zero, Finset.filter_eq_empty_iff]
    intro i hi hz
    have hlt := Finset.mem_range.mp hi
    refine hno i ⟨by omega, fun j hj => ?_⟩
    obtain rfl : j = 0 := by omega
    exact hz

/-- A frame is given back. -/
theorem addrFreePage_one (h : PallocShape a) (hf : IsFrame f) :
    PallocShape (addrFreePage a f 1) ∧
      ∀ g, Taken (addrFreePage a f 1) g ↔ Taken a g ∧ g ≠ f := by
  have halign := hf.aligned
  have habove := hf.above
  have hbelow := hf.below
  have hstart : a.start = 0x100000 := h.start
  have hsize : a.pageSize = 4096 := h.pageSize
  have he : addrFreePage a f 1
      = { a with bitmap := bitmapSetBit a.bitmap ((f - 0x100000) / 4096) 1 0 } := by
    rw [addrFreePage_above (by omega) (by omega), hstart, hsize]
  have hshape := h.setBit ((f - 0x100000) / 4096) 1 0
  rw [he]
  refine ⟨hshape, fun g => ?_⟩
  rw [taken_iff hshape, taken_iff h, pages_setBit]
  have hcov : ∀ j, Ranges.Covers ((f - 0x100000) / 4096, 1) j ↔ 0x100000 + j * 4096 = f := by
    intro j
    unfold Ranges.Covers
    omega
  constructor
  · rintro ⟨j, hj, rfl, hused⟩
    obtain ⟨hold, hne⟩ := (used_clear_iff hj).mp hused
    exact ⟨⟨j, hj, rfl, hold⟩, fun hgf => hne ((hcov j).mpr hgf)⟩
  · rintro ⟨⟨j, hj, rfl, hused⟩, hne⟩
    exact ⟨j, hj, rfl, (used_clear_iff hj).mpr ⟨hused, fun hc => hne ((hcov j).mp hc)⟩⟩

/-- The managed range of the page allocator. -/
theorem PallocShape.wholePages (h : PallocShape a) : WholePages a := by
  have hwhole := h.whole
  have hfits := h.fits
  have hpages := h.pages_eq
  have hsize : a.pageSize = 4096 := h.pageSize
  unfold memExtEnd memPageSize AddrAlloc.pages at *
  exact ⟨by omega, by omega, by rw [hpages, hsize]; omega⟩

/-- Giving back an address of the user half changes nothing. -/
theorem addrFreePage_user (h : PallocShape a) {v n : Nat} (h₁ : 0x80000000 ≤ v)
    (h₂ : v < 2 ^ 32) : addrFreePage a v n = a := by
  have hfits := h.fits
  unfold memExtEnd at hfits
  exact addrFreePage_outside h.wholePages h₂ (Or.inr (by omega))

end StartKernel
