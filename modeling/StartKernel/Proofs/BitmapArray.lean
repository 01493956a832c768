import StartKernel.Abs.BoolArray
import StartKernel.Proofs.Bitmap
import StartKernel.Tools.BitmapAccess

/-!
# `StartKernel.Proofs.BitmapArray`: a bitmap implements an array of booleans

* `bitmapSetBitLog_bitmap`, `bitmapGetBitLog_fst`, `bitmapInitLog_bitmap`: the arithmetic of `int`
  gives the same bytes.
* `bitmapSetBitLog_accessed`: `bitmap_set_bit` accesses one byte for each bit of the range below the
  bit count.
* `Tracks.init`, `Tracks.setBit`, `Tracks.run`: a fresh bitmap stands for an array, and a call of
  `bitmap_set_bit` is an assignment to it.
* `bitmap_refines`: both, for a bitmap that `bitmap_init` set up, after any calls.
-/

set_option autoImplicit false

namespace StartKernel

open BoolArray (Assign assign fill fill_map_range)

variable {w w' : LogBitmap} {l : List Bool} {n bit : Int} {index count i j : Nat}

/-! ### Bytes and `int`s -/

/-- A byte count that is not negative did not overflow. -/
theorem bitmapByteCountInt_eq (hlow : -2 ^ 31 ≤ n) (hhigh : n < 2 ^ 31)
    (hpos : 0 ≤ bitmapByteCountInt n) : bitmapByteCountInt n = bitmapByteCount n := by
  by_cases hlt : n + 8 - 1 < 2 ^ 31
  · rw [bitmapByteCountInt, toInt_of_fits (by omega) hlt]
    rfl
  · -- The sum wraps around to a negative number.
    rw [bitmapByteCountInt, toInt_of_wraps (by omega) (by omega),
      show n + 8 - 1 - 2 ^ 32 = -(2 ^ 32 - (n + 8 - 1)) by omega, Int.neg_tdiv,
      Int.tdiv_eq_ediv_of_nonneg (by omega)] at hpos
    omega

/-- One turn of the loop, on a byte. -/
theorem storeBit_bitmap (w : LogBitmap) (index : Nat) (bit : Int) :
    (w.storeBit index bit).bitmap = w.bitmap.setByte (index / 8)
      (if bit ≠ 0 then w.bitmap.bits (index / 8) ||| (1#8 <<< (index % 8))
        else w.bitmap.bits (index / 8) &&& ~~~(1#8 <<< (index % 8))) := by
  have hbyte := PackedBits.putBit_promoted (v := w.bitmap.bits (index / 8)) (b := decide (bit ≠ 0))
    (Nat.mod_lt index (by omega)) (by omega : 8 ≤ 32)
  apply congrArg (w.bitmap.setByte (index / 8))
  by_cases hbit : bit ≠ 0
  · rw [decide_eq_true hbit] at hbyte
    rw [if_pos hbit, if_pos hbit]
    exact hbyte
  · rw [decide_eq_false hbit] at hbyte
    rw [if_neg hbit, if_neg hbit]
    exact hbyte

theorem bitmapSetBitLog_bitmap (w : LogBitmap) (index count : Nat) (bit : Int) :
    (bitmapSetBitLog w index count bit).bitmap = bitmapSetBit w.bitmap index count bit := by
  induction count generalizing w index with
  | zero => rfl
  | succ count ih =>
    by_cases hin : (index : Int) < w.bitmap.bitCount
    · rw [bitmapSetBitLog, if_pos hin, ih, storeBit_bitmap, bitmapSetBit, if_pos hin]
    · rw [bitmapSetBitLog, if_neg hin, bitmapSetBit, if_neg hin]

theorem bitmapGetBitLog_fst (w : LogBitmap) (index : Nat) :
    (bitmapGetBitLog w index).1 = bitmapGetBit w.bitmap index := by
  rw [bitmapGetBit_eq]
  exact if_congr (PackedBits.mask_promoted (Nat.mod_lt index (by omega)) (by omega)) rfl rfl

/-- What `bitmap_init` sets up. -/
theorem bitmapInitLog_bitmap {bits : Nat → BitVec 8} {initBit : Int} (hlow : -2 ^ 31 ≤ n)
    (hhigh : n < 2 ^ 31) (h : bitmapInitLog bits n initBit = some w) :
    bitmapByteCountInt n = bitmapByteCount n ∧ w.bitmap = bitmapInit bits n initBit ∧
      w.accessed = (List.range (bitmapByteCountInt n).toNat).reverse := by
  by_cases hneg : bitmapByteCountInt n < 0
  · rw [bitmapInitLog, if_pos hneg] at h
    cases h
  · have hcount := bitmapByteCountInt_eq hlow hhigh (Int.not_lt.mp hneg)
    rw [bitmapInitLog, if_neg hneg] at h
    obtain rfl := Option.some.inj h
    refine ⟨hcount, ?_, rfl⟩
    rw [bitmapInit, ← hcount]

/-- The loop accesses one byte for each bit of the range below the bit count. -/
theorem bitmapSetBitLog_accessed (w : LogBitmap) (index count : Nat) (bit : Int) :
    (bitmapSetBitLog w index count bit).accessed =
      ((List.range' index (min count (w.bitmap.bitCount.toNat - index))).map (· / 8)).reverse
        ++ w.accessed := by
  induction count generalizing w index with
  | zero =>
    rw [Nat.zero_min]
    rfl
  | succ count ih =>
    by_cases hin : (index : Int) < w.bitmap.bitCount
    · have hlen : min (count + 1) (w.bitmap.bitCount.toNat - index)
          = min count (w.bitmap.bitCount.toNat - (index + 1)) + 1 := by omega
      have hcount : (w.storeBit index bit).bitmap.bitCount = w.bitmap.bitCount := rfl
      rw [bitmapSetBitLog, if_pos hin, ih, hcount, hlen, List.range'_succ, List.map_cons,
        List.reverse_cons, List.append_assoc]
      rfl
    · rw [bitmapSetBitLog, if_neg hin, show min (count + 1) (w.bitmap.bitCount.toNat - index) = 0 by
        omega]
      rfl

/-! ### The array -/

/-- No byte at or beyond the byte count was accessed. -/
def LogBitmap.InBounds (w : LogBitmap) : Prop :=
  ∀ i ∈ w.accessed, (i : Int) < bitmapByteCountInt w.bitmap.bitCount

/-- The array that a bitmap stands for. -/
def Bitmap.bools (b : Bitmap) : List Bool :=
  (List.range b.bitCount.toNat).map (PackedBits.bit b.bits)

/-- The bitmap implements the array `l`: it has as many bits, `bitmap_get_bit` reads the elements,
and what was accessed, also by these reads, lies below the byte count. -/
structure Implements (w : LogBitmap) (l : List Bool) : Prop where
  length : l.length = w.bitmap.bitCount.toNat
  get : ∀ (j : Nat) (hj : j < l.length), (bitmapGetBitLog w j).1 = if l[j] then 1 else 0
  inside : w.InBounds
  getInside : ∀ j < l.length, (bitmapGetBitLog w j).2.InBounds

/-- What `bitmap_set_bit(bitmap, index, count, bit)` does to a bitmap: the bits of the range below
the bit count get the value, no other bit changes, also none at or above the bit count, and the loop
makes one turn for each bit that gets the value. -/
structure SetsRange (w : LogBitmap) (index count : Nat) (bit : Int) (w' : LogBitmap) : Prop where
  bitCount : w'.bitmap.bitCount = w.bitmap.bitCount
  get : ∀ j : Nat, (j : Int) < w.bitmap.bitCount → (bitmapGetBitLog w' j).1 =
    if index ≤ j ∧ j < index + count then (if bit ≠ 0 then 1 else 0) else (bitmapGetBitLog w j).1
  padding : ∀ j : Nat, w.bitmap.bitCount ≤ j →
    PackedBits.bit w'.bitmap.bits j = PackedBits.bit w.bitmap.bits j
  clipped : w'.accessed =
    ((List.range' index (min count (w.bitmap.bitCount.toNat - index))).map (· / 8)).reverse
      ++ w.accessed
  inside : w'.InBounds

/-- A call of `bitmap_set_bit`. -/
structure SetCall where
  index : Nat
  count : Nat
  bit : Int

/-- The bitmap after a call. -/
def LogBitmap.call (w : LogBitmap) (c : SetCall) : LogBitmap :=
  bitmapSetBitLog w c.index c.count c.bit

/-- What a call does to the array. -/
def SetCall.assign (c : SetCall) : Assign := ⟨c.index, c.count, decide (c.bit ≠ 0)⟩

/-- The invariant: the byte count did not overflow, the bitmap stands for the array `l`, and
nothing outside was accessed. -/
structure Tracks (w : LogBitmap) (l : List Bool) : Prop where
  size : bitmapByteCountInt w.bitmap.bitCount = bitmapByteCount w.bitmap.bitCount
  array : w.bitmap.bools = l
  inside : w.InBounds

/-- A fresh bitmap stands for an array of equal elements. -/
theorem bitmapInit_bools (bits : Nat → BitVec 8) (n initBit : Int) :
    (bitmapInit bits n initBit).bools = List.replicate n.toNat (decide (initBit ≠ 0)) := by
  rw [List.eq_replicate_iff]
  refine ⟨by rw [Bitmap.bools, List.length_map, List.length_range]; rfl, fun b hb => ?_⟩
  obtain ⟨j, hj, rfl⟩ := List.mem_map.mp hb
  have hlt : j < n.toNat := List.mem_range.mp hj
  exact bitmapInit_bit bits initBit (by omega)

/-- Setting a range of bits is an assignment. -/
theorem bitmapSetBit_bools (b : Bitmap) (index count : Nat) (bit : Int) :
    (bitmapSetBit b index count bit).bools = fill b.bools index count (decide (bit ≠ 0)) := by
  rw [Bitmap.bools, Bitmap.bools, fill_map_range, bitmapSetBit_bitCount]
  apply List.map_congr_left
  intro j hj
  have hlt : j < b.bitCount.toNat := List.mem_range.mp hj
  rw [bitmapSetBit_bits, PackedBits.bit_putRange (by omega)]
  exact if_congr (by omega) rfl rfl

theorem Tracks.init {bits : Nat → BitVec 8} {initBit : Int} (hlow : -2 ^ 31 ≤ n)
    (hhigh : n < 2 ^ 31) (h : bitmapInitLog bits n initBit = some w) :
    Tracks w (List.replicate n.toNat (decide (initBit ≠ 0))) := by
  obtain ⟨hsize, hbitmap, haccessed⟩ := bitmapInitLog_bitmap hlow hhigh h
  have hcount : w.bitmap.bitCount = n := by
    rw [hbitmap]
    rfl
  refine ⟨by rw [hcount, hsize], by rw [hbitmap, bitmapInit_bools], fun i hi => ?_⟩
  rw [haccessed, List.mem_reverse, List.mem_range] at hi
  rw [hcount]
  omega

/-- Reading an element stays below the byte count. -/
theorem Tracks.byte_inside (h : Tracks w l) (hj : (j : Int) < w.bitmap.bitCount) :
    ((j / 8 : Nat) : Int) < bitmapByteCountInt w.bitmap.bitCount := by
  rw [h.size]
  exact byte_lt_of_bit_lt hj

theorem Tracks.setsRange (h : Tracks w l) (index count : Nat) (bit : Int) :
    SetsRange w index count bit (bitmapSetBitLog w index count bit) := by
  have hcount : (bitmapSetBitLog w index count bit).bitmap.bitCount = w.bitmap.bitCount := by
    rw [bitmapSetBitLog_bitmap, bitmapSetBit_bitCount]
  refine ⟨hcount, fun j hj => ?_, fun j hj => ?_, bitmapSetBitLog_accessed w index count bit, ?_⟩
  · rw [bitmapGetBitLog_fst, bitmapGetBitLog_fst, bitmapSetBitLog_bitmap, bitmapGetBit_set]
    exact if_congr (by simp [hj]) rfl rfl
  · rw [bitmapSetBitLog_bitmap, bitmapSetBit_bits, PackedBits.bit_putRange (by omega),
      if_neg (by omega)]
  · intro i hi
    rw [hcount]
    rw [bitmapSetBitLog_accessed, List.mem_append, List.mem_reverse] at hi
    rcases hi with hi | hi
    · -- The byte belongs to a bit below the bit count.
      obtain ⟨j, hj, rfl⟩ := List.mem_map.mp hi
      rw [List.mem_range'_1] at hj
      exact h.byte_inside (by omega)
    · exact h.inside i hi

theorem Tracks.setBit (h : Tracks w l) (index count : Nat) (bit : Int) :
    Tracks (bitmapSetBitLog w index count bit) (fill l index count (decide (bit ≠ 0))) where
  size := by rw [(h.setsRange index count bit).bitCount, h.size]
  array := by rw [bitmapSetBitLog_bitmap, bitmapSetBit_bools, h.array]
  inside := (h.setsRange index count bit).inside

theorem Tracks.run (h : Tracks w l) (calls : List SetCall) :
    Tracks (calls.foldl LogBitmap.call w) ((calls.map SetCall.assign).foldl assign l) := by
  induction calls generalizing w l with
  | nil => exact h
  | cons c calls ih => exact ih (h.setBit c.index c.count c.bit)

theorem Tracks.implements (h : Tracks w l) : Implements w l := by
  have hlen : l.length = w.bitmap.bitCount.toNat := by
    rw [← h.array, Bitmap.bools, List.length_map, List.length_range]
  refine ⟨hlen, fun j hj => ?_, h.inside, fun j hj i hi => ?_⟩
  · have hget : l[j] = PackedBits.bit w.bitmap.bits j := by
      simp only [← h.array, Bitmap.bools, List.getElem_map, List.getElem_range]
    rw [bitmapGetBitLog_fst, bitmapGetBit_eq, hget]
  · rcases List.mem_cons.mp hi with rfl | hi
    · exact h.byte_inside (by omega)
    · exact h.inside i hi

/-- A bitmap that `bitmap_init` set up implements an array of booleans, after any calls of
`bitmap_set_bit`, and every further call sets exactly the bits of its range below the bit count. -/
theorem bitmap_refines {bits : Nat → BitVec 8} {initBit : Int} (hlow : -2 ^ 31 ≤ n)
    (hhigh : n < 2 ^ 31) (hinit : bitmapInitLog bits n initBit = some w) (calls : List SetCall) :
    Implements (calls.foldl LogBitmap.call w)
      ((calls.map SetCall.assign).foldl assign (List.replicate n.toNat (decide (initBit ≠ 0)))) ∧
    ∀ (index count : Nat) (bit : Int), SetsRange (calls.foldl LogBitmap.call w) index count bit
      (bitmapSetBitLog (calls.foldl LogBitmap.call w) index count bit) := by
  have htracks := (Tracks.init hlow hhigh hinit).run calls
  exact ⟨htracks.implements, htracks.setsRange⟩

/-- In a bitmap of ten bits, a call for twenty bits from the bit 3 on sets the last seven. -/
theorem bitmap_refines_ten_bits : ∃ w₀, bitmapInitLog (fun _ => 0x5A#8) 10 0 = some w₀ ∧
    Implements ([SetCall.mk 3 20 1].foldl LogBitmap.call w₀)
      [false, false, false, true, true, true, true, true, true, true] ∧
    ∀ (index count : Nat) (bit : Int),
      SetsRange ([SetCall.mk 3 20 1].foldl LogBitmap.call w₀) index count bit
        (bitmapSetBitLog ([SetCall.mk 3 20 1].foldl LogBitmap.call w₀) index count bit) := by
  have harray : ([SetCall.mk 3 20 1].map SetCall.assign).foldl assign
      (List.replicate (10 : Int).toNat (decide ((0 : Int) ≠ 0)))
        = [false, false, false, true, true, true, true, true, true, true] := by decide
  have hinit : bitmapInitLog (fun _ => 0x5A#8) 10 0
      = some ⟨⟨10, fun i => if (i : Int) < 2 then 0#8 else 0x5A#8⟩, [1, 0]⟩ := rfl
  have hrefines := bitmap_refines (by decide) (by decide) hinit [SetCall.mk 3 20 1]
  rw [harray] at hrefines
  exact ⟨_, hinit, hrefines⟩

end StartKernel
