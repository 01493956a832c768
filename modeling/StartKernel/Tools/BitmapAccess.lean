import StartKernel.Tools.Bitmap

/-!
# `StartKernel.Tools.BitmapAccess`: the bytes that `tools/bitmap.c` accesses

`bitmap_init`, `bitmap_set_bit` and `bitmap_get_bit` once more, with the bytes of `bits` that they
read or write and with the arithmetic of `int`. A byte is promoted to 32 bits, the mask and its
complement have 32 bits, and the result is cut off to a byte again.

The sum of `bitmap_byte_count` overflows for the last few bit counts below `2^31`. The size that
`kernel_memset` gets is negative then, and its loop counts down through all of memory: `bitmap_init`
gives nothing.
-/

set_option autoImplicit false

namespace StartKernel

/-- `bitmap_t`, and the bytes that were accessed, the last one first. -/
structure LogBitmap where
  bitmap : Bitmap
  accessed : List Nat

/-- `bitmap_byte_count`, with its sum as an `int`. -/
def bitmapByteCountInt (bitCount : Int) : Int := (toInt (bitCount + 8 - 1)).tdiv 8

/-- `bitmap_init`. -/
def bitmapInitLog (bits : Nat → BitVec 8) (count : Int) (initBit : Int) : Option LogBitmap :=
  let bytes := bitmapByteCountInt count
  if bytes < 0 then none
  else
    let v := if initBit ≠ 0 then 0xFF#8 else 0#8
    some
      { bitmap := ⟨count, fun i => if (i : Int) < bytes then v else bits i⟩
        accessed := (List.range bytes.toNat).reverse }

/-- The body of the loop of `bitmap_set_bit`. -/
def LogBitmap.storeBit (w : LogBitmap) (index : Nat) (bit : Int) : LogBitmap :=
  let byte := (w.bitmap.bits (index / 8)).setWidth 32
  let mask := 1#32 <<< (index % 8)
  { bitmap := w.bitmap.setByte (index / 8)
      ((if bit ≠ 0 then byte ||| mask else byte &&& ~~~mask).setWidth 8)
    accessed := index / 8 :: w.accessed }

/-- `bitmap_set_bit`. In the loop, `index` is below `bit_count`, so that `index++` does not
overflow. -/
def bitmapSetBitLog (w : LogBitmap) (index : Nat) : Nat → Int → LogBitmap
  | 0, _ => w
  | count + 1, bit =>
    if (index : Int) < w.bitmap.bitCount then
      bitmapSetBitLog (w.storeBit index bit) (index + 1) count bit
    else w

/-- `bitmap_get_bit`. -/
def bitmapGetBitLog (w : LogBitmap) (index : Nat) : Int × LogBitmap :=
  (if (w.bitmap.bits (index / 8)).setWidth 32 &&& (1#32 <<< (index % 8)) ≠ 0#32 then 1 else 0,
    { w with accessed := index / 8 :: w.accessed })

end StartKernel
