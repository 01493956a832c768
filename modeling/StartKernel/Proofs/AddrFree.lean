import StartKernel.Proofs.AddrAlloc

/-!
# `StartKernel.Proofs.AddrFree`: what `addr_free_page` clears

The number of the page comes from an unsigned subtraction, which wraps around for an address below
the start, and nothing but the loop of `bitmap_set_bit` compares it with the bit count. With pages
of 4096 bytes this is enough: the number is below `2^20`, so that it is its own `int`, and it is at
or above the bit count for every address outside of the managed range.

* `Managed.run`: calls of the allocator keep the managed range and the number of bits.
* `Managed.freesExactly`: what one call of `addr_free_page` does then.
* `addrFreePage_exact`: the same, after any calls from a fresh allocator on.
-/

set_option autoImplicit false

namespace StartKernel

variable {a : AddrAlloc} {start size addr pageCount : Nat}

/-- The allocator manages pages of 4096 bytes from `start` to `start + size`, with one bit each. -/
structure Managed (start size : Nat) (a : AddrAlloc) : Prop where
  start : a.start = start
  size : a.size = size
  pageSize : a.pageSize = 4096
  bitCount : a.bitmap.bitCount = (a.size / 4096 : Nat)

/-- A call of the allocator, with any arguments. -/
def AddrAlloc.call (a : AddrAlloc) : AllocCall → AddrAlloc
  | .alloc pageCount => (addrAllocPage a pageCount).2
  | .free addr pageCount => addrFreePage a addr pageCount

/-- What `addr_free_page(alloc, addr, page_count)` does. For an address in the managed range it
clears the bit of its page and those of the following ones, as far as they are below the bit count,
and no other bit changes. For an address outside nothing changes. -/
structure FreesExactly (start size : Nat) (a : AddrAlloc) (addr pageCount : Nat) : Prop where
  /-- The number of the page is an `int`. -/
  index : toInt (toU32 ((addr : Int) - start) / 4096 : Nat)
    = (toU32 ((addr : Int) - start) / 4096 : Nat)
  inside : start ≤ addr → addr < start + size → ∃ p : Nat, (p : Int) < a.bitmap.bitCount ∧
    start + p * 4096 ≤ addr ∧ addr < start + (p + 1) * 4096 ∧
    ∀ j : Nat, bitmapGetBit (addrFreePage a addr pageCount).bitmap j =
      if p ≤ j ∧ j < p + pageCount ∧ (j : Int) < a.bitmap.bitCount then 0
      else bitmapGetBit a.bitmap j
  outside : addr < start ∨ start + size ≤ addr → addrFreePage a addr pageCount = a

/-- A fresh allocator with whole pages. -/
theorem managed_init (bits : Nat → BitVec 8) (hfits : start + size ≤ 2 ^ 32) :
    Managed start size (addrAllocInit bits start size 4096) where
  start := rfl
  size := rfl
  pageSize := rfl
  bitCount := by
    simp only [addrAllocInit, bitmapInit]
    rw [toInt_of_fits (by omega) (by omega)]

theorem Managed.step (h : Managed start size a) (c : AllocCall) :
    Managed start size (a.call c) := by
  cases c with
  | alloc pageCount =>
    have hcount := bitmapAllocNbits_bitCount a.bitmap 0 pageCount
    show Managed start size (addrAllocPage a pageCount).2
    unfold addrAllocPage
    split
    · rename_i i bitmap heq
      rw [heq] at hcount
      exact ⟨h.start, h.size, h.pageSize, hcount.trans h.bitCount⟩
    · rename_i bitmap heq
      rw [heq] at hcount
      exact ⟨h.start, h.size, h.pageSize, hcount.trans h.bitCount⟩
  | free addr pageCount =>
    exact ⟨h.start, h.size, h.pageSize, (bitmapSetBit_bitCount _ _ _ _).trans h.bitCount⟩

theorem Managed.run (h : Managed start size a) (calls : List AllocCall) :
    Managed start size (calls.foldl AddrAlloc.call a) := by
  induction calls generalizing a with
  | nil => exact h
  | cons c calls ih => exact ih (h.step c)

theorem Managed.wholePages (h : Managed start size a) (hsize : 4096 ∣ size)
    (hfits : start + size ≤ 2 ^ 32) : WholePages a := by
  refine ⟨by rw [h.pageSize]; omega, by rw [h.start, h.size]; exact hfits, ?_⟩
  rw [h.bitCount, Int.toNat_natCast, h.pageSize, h.size]
  exact Nat.div_mul_cancel hsize

/-- Freeing is exact in the managed range and harmless outside. -/
theorem Managed.freesExactly (h : Managed start size a) (hsize : 4096 ∣ size)
    (hfits : start + size ≤ 2 ^ 32) (haddr : addr < 2 ^ 32) :
    FreesExactly start size a addr pageCount := by
  constructor
  · have hlt := toU32_lt ((addr : Int) - start)
    exact toInt_of_fits (by omega) (by omega)
  · intro hlow hhigh
    have hcount := h.bitCount
    rw [h.size] at hcount
    refine ⟨(addr - start) / 4096, by omega, by omega, by omega, fun j => ?_⟩
    rw [addrFreePage_above (by rw [h.start]; exact hlow) (by omega), h.start, h.pageSize]
    exact bitmapGetBit_set a.bitmap ((addr - start) / 4096) pageCount 0 j
  · intro hout
    rw [← h.start, ← h.size] at hout
    exact addrFreePage_outside (h.wholePages hsize hfits) haddr hout

/-- Freeing is exact in the managed range and harmless outside, in every state of an allocator of
pages of 4096 bytes. -/
theorem addrFreePage_exact (bits : Nat → BitVec 8) (calls : List AllocCall) (pageCount : Nat)
    (hsize : 4096 ∣ size) (hfits : start + size ≤ 2 ^ 32) (haddr : addr < 2 ^ 32) :
    FreesExactly start size (calls.foldl AddrAlloc.call (addrAllocInit bits start size 4096)) addr
      pageCount :=
  ((managed_init bits hfits).run calls).freesExactly hsize hfits haddr

/-- Sixteen pages from 1 MB on, of which some were taken, and an address below them. -/
theorem addrFreePage_exact_sixteen_pages : FreesExactly 0x100000 0x10000
    ([.alloc 3, .free 0x101000 1].foldl AddrAlloc.call
      (addrAllocInit (fun _ => 0#8) 0x100000 0x10000 4096)) 0x1000 2 :=
  addrFreePage_exact (fun _ => 0#8) [.alloc 3, .free 0x101000 1] 2 (by decide) (by decide)
    (by decide)

end StartKernel
