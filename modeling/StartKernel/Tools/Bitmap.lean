import StartKernel.Comm.Types

/-!
# `StartKernel.Tools.Bitmap`: the bitmap of `tools/bitmap.c`

A bit is addressed by its index: byte `index / 8`, bit `index % 8`. The byte array is a
function on indices, since the bitmap does not own the bytes it is given. Indices and counts
are never negative, so they are natural numbers. `bit_count` is an `int` that comes from a
conversion.
-/

set_option autoImplicit false

namespace StartKernel

/-- `bitmap_t`. -/
structure Bitmap where
  bitCount : Int
  bits : Nat → BitVec 8

/-- `bitmap_byte_count`. The division truncates. -/
def bitmapByteCount (bitCount : Int) : Int := (bitCount + 8 - 1).tdiv 8

/-- `bitmap_init`. -/
def bitmapInit (bits : Nat → BitVec 8) (count : Int) (initBit : Int) : Bitmap where
  bitCount := count
  bits i :=
    if (i : Int) < bitmapByteCount count then (if initBit ≠ 0 then 0xFF#8 else 0#8) else bits i

/-- The store of one byte of the bitmap. -/
def Bitmap.setByte (bitmap : Bitmap) (i : Nat) (v : BitVec 8) : Bitmap :=
  { bitmap with bits := fun j => if j = i then v else bitmap.bits j }

/-- `bitmap_set_bit`. The recursion is on the bits still to set. -/
def bitmapSetBit (bitmap : Bitmap) (index : Nat) : Nat → Int → Bitmap
  | 0, _ => bitmap
  | count + 1, bit =>
    if (index : Int) < bitmap.bitCount then
      let byte := bitmap.bits (index / 8)
      let bitmap := bitmap.setByte (index / 8)
        (if bit ≠ 0 then byte ||| (1#8 <<< (index % 8)) else byte &&& ~~~(1#8 <<< (index % 8)))
      bitmapSetBit bitmap (index + 1) count bit
    else bitmap

/-- `bitmap_get_bit`. -/
def bitmapGetBit (bitmap : Bitmap) (index : Nat) : Int :=
  if bitmap.bits (index / 8) &&& (1#8 <<< (index % 8)) ≠ 0#8 then 1 else 0

/-- `bitmap_is_set`. -/
def bitmapIsSet (bitmap : Bitmap) (index : Nat) : Int :=
  if bitmapGetBit bitmap index ≠ 0 then 1 else 0

/-- The inner loop of `bitmap_alloc_nbits`: `i` and `search_idx` when it ends. It ends at a
bit that differs, which it still steps over, at the last bit to look at or at the end of the
bitmap. -/
def bitmapScan (bitmap : Bitmap) (bit : Int) (count i searchIdx : Nat) : Nat × Nat :=
  if i < count ∧ (searchIdx : Int) < bitmap.bitCount then
    if bitmapGetBit bitmap searchIdx ≠ bit then (i, searchIdx + 1)
    else bitmapScan bitmap bit count (i + 1) (searchIdx + 1)
  else (i, searchIdx)
termination_by count - i

/-- The inner loop does not step back. -/
theorem bitmapScan_le (bitmap : Bitmap) (bit : Int) (count i searchIdx : Nat) :
    searchIdx ≤ (bitmapScan bitmap bit count i searchIdx).2 := by
  fun_induction bitmapScan bitmap bit count i searchIdx with
  | case1 => simp
  | case2 i searchIdx _ _ ih => omega
  | case3 => simp

/-- An inner loop that starts inside the bitmap and stops short makes a step. -/
theorem bitmapScan_lt {bitmap : Bitmap} {bit : Int} {count i searchIdx : Nat}
    (hin : (searchIdx : Int) < bitmap.bitCount)
    (hi : ¬ count ≤ (bitmapScan bitmap bit count i searchIdx).1) :
    searchIdx < (bitmapScan bitmap bit count i searchIdx).2 := by
  unfold bitmapScan at hi ⊢
  split
  · split
    · simp
    · exact bitmapScan_le bitmap bit count (i + 1) (searchIdx + 1)
  · rename_i hn
    rw [if_neg hn] at hi
    omega

/-- The outer loop of `bitmap_alloc_nbits`. The index of the first bit, or nothing for
`-1`. -/
def bitmapSearch (bitmap : Bitmap) (bit : Int) (count searchIdx : Nat) : Option Nat × Bitmap :=
  if hin : (searchIdx : Int) < bitmap.bitCount then
    if bitmapGetBit bitmap searchIdx ≠ bit then bitmapSearch bitmap bit count (searchIdx + 1)
    else
      -- `ok_idx` is the index in front of the inner loop.
      if hi : count ≤ (bitmapScan bitmap bit count 1 searchIdx).1 then
        (some searchIdx, bitmapSetBit bitmap searchIdx count (-bit - 1))
      else bitmapSearch bitmap bit count (bitmapScan bitmap bit count 1 searchIdx).2
  else (none, bitmap)
termination_by (bitmap.bitCount - searchIdx).toNat
decreasing_by
  · omega
  · have := bitmapScan_lt hin hi
    omega

/-- `bitmap_alloc_nbits`. The complement `~bit` of an `int` is `-bit - 1`. -/
def bitmapAllocNbits (bitmap : Bitmap) (bit : Int) (count : Nat) : Option Nat × Bitmap :=
  bitmapSearch bitmap bit count 0

end StartKernel
