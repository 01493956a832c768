import StartKernel.Tools.Bitmap

/-!
# `StartKernel.Core.AddrAlloc`: the page allocator of `core/memory.c`

`addr_alloc_t` and its three functions. A call runs between `mutex_lock` and `mutex_unlock`
of the allocator, so two calls do not interleave, and the mutex itself is left out here.
Addresses are 32-bit numbers.
-/

set_option autoImplicit false

namespace StartKernel

/-- `addr_alloc_t`, without its mutex. -/
structure AddrAlloc where
  bitmap : Bitmap
  pageSize : Nat
  start : Nat
  size : Nat

/-- `addr_alloc_init`. The bit count is converted to `int`. -/
def addrAllocInit (bits : Nat → BitVec 8) (start size pageSize : Nat) : AddrAlloc where
  bitmap := bitmapInit bits (toInt (size / pageSize : Nat)) 0
  pageSize := pageSize
  start := start
  size := size

/-- `addr_alloc_page`. It returns 0 when it finds no pages. -/
def addrAllocPage (alloc : AddrAlloc) (pageCount : Nat) : Nat × AddrAlloc :=
  match bitmapAllocNbits alloc.bitmap 0 pageCount with
  | (some pageIndex, bitmap) =>
    ((alloc.start + pageIndex * alloc.pageSize) % 2 ^ 32, { alloc with bitmap })
  | (none, bitmap) => (0, { alloc with bitmap })

/-- `addr_free_page`. -/
def addrFreePage (alloc : AddrAlloc) (addr pageCount : Nat) : AddrAlloc :=
  let pgIdx := toU32 (addr - alloc.start) / alloc.pageSize
  { alloc with bitmap := bitmapSetBit alloc.bitmap pgIdx pageCount 0 }

end StartKernel
