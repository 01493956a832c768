import StartKernel.Lib.FirstFit
import StartKernel.Lib.PackedBits
import StartKernel.Tools.Bitmap

/-!
# `StartKernel.Proofs.Bitmap`: the packed bitmap as an array of bits

* `bitmapSetBit_bits`: setting a range of bits sets those below the bit count.
* `bitmapGetBit_set`: the same, read back bit by bit.
* `bitmapScan_cases`: the three ways the inner loop of the search ends.
* `bitmapAllocNbits_cases`: the search finds the first run of `max 1 (count - 1)` bits, one
  bit less than `count` when `count` is more than one, and then sets `count` bits from
  there.
-/

set_option autoImplicit false

namespace StartKernel

open FirstFit (Fits First not_fits_of_bad not_fits_of_end)

variable {b : Bitmap} {bit : Int} {count i j index s : Nat}

/-- Reading a bit is testing it. -/
theorem bitmapGetBit_eq (b : Bitmap) (i : Nat) :
    bitmapGetBit b i = if PackedBits.bit b.bits i then 1 else 0 :=
  if_congr (PackedBits.and_mask_ne_zero (Nat.mod_lt i (by omega))) rfl rfl

/-- A bit reads as 0 or 1. -/
theorem bitmapGetBit_cases (b : Bitmap) (i : Nat) :
    bitmapGetBit b i = 0 ∨ bitmapGetBit b i = 1 := by
  unfold bitmapGetBit
  split
  · exact Or.inr rfl
  · exact Or.inl rfl

/-- The bit count and the bits make up a bitmap. -/
theorem bitmap_ext {b' : Bitmap} (hcount : b'.bitCount = b.bitCount)
    (hbits : ∀ i, bitmapGetBit b' i = bitmapGetBit b i) : b' = b := by
  have hwords : b'.bits = b.bits := by
    apply PackedBits.words_ext
    intro i
    have hi := hbits i
    rw [bitmapGetBit_eq, bitmapGetBit_eq] at hi
    cases hb : PackedBits.bit b.bits i <;> cases hb' : PackedBits.bit b'.bits i <;> simp_all
  cases b
  cases b'
  simp_all

/-- A bit below the count lies in a byte below the byte count. -/
theorem byte_lt_of_bit_lt {n : Int} (hi : (i : Int) < n) :
    ((i / 8 : Nat) : Int) < bitmapByteCount n := by
  rw [bitmapByteCount, Int.tdiv_eq_ediv_of_nonneg (by omega)]
  omega

/-- The bits of a fresh bitmap. -/
theorem bitmapInit_bit (bits : Nat → BitVec 8) (initBit : Int) {n : Int} (hi : (i : Int) < n) :
    PackedBits.bit (bitmapInit bits n initBit).bits i = decide (initBit ≠ 0) := by
  show (if ((i / 8 : Nat) : Int) < bitmapByteCount n then
    (if initBit ≠ 0 then 0xFF#8 else 0#8) else bits (i / 8)).getLsbD (i % 8) = _
  rw [if_pos (byte_lt_of_bit_lt hi)]
  by_cases hbit : initBit ≠ 0
  · rw [if_pos hbit, decide_eq_true hbit, show 0xFF#8 = BitVec.allOnes 8 from rfl,
      BitVec.getLsbD_allOnes, decide_eq_true (Nat.mod_lt i (by omega))]
  · rw [if_neg hbit, decide_eq_false hbit, BitVec.getLsbD_zero]

@[simp] theorem bitmapSetBit_bitCount (b : Bitmap) (index count : Nat) (bit : Int) :
    (bitmapSetBit b index count bit).bitCount = b.bitCount := by
  induction count generalizing b index with
  | zero => rfl
  | succ count ih =>
    unfold bitmapSetBit
    split
    · rw [ih]
      rfl
    · rfl

/-- The store of one bit. -/
theorem setByte_bits (b : Bitmap) (index : Nat) (bit : Int) :
    (b.setByte (index / 8)
      (if bit ≠ 0 then b.bits (index / 8) ||| (1#8 <<< (index % 8))
        else b.bits (index / 8) &&& ~~~(1#8 <<< (index % 8)))).bits =
      PackedBits.put b.bits index (decide (bit ≠ 0)) := by
  by_cases hbit : bit ≠ 0
  · rw [if_pos hbit, decide_eq_true hbit]
    rfl
  · rw [if_neg hbit, decide_eq_false hbit]
    rfl

/-- Setting a range of bits: the bits of the range below the bit count change. -/
theorem bitmapSetBit_bits (b : Bitmap) (index count : Nat) (bit : Int) :
    (bitmapSetBit b index count bit).bits =
      PackedBits.putRange b.bits index (decide (bit ≠ 0))
        (min count (b.bitCount.toNat - index)) := by
  induction count generalizing b index with
  | zero =>
    rw [Nat.zero_min]
    rfl
  | succ count ih =>
    unfold bitmapSetBit
    split
    · have hlen : min (count + 1) (b.bitCount.toNat - index)
          = min count (b.bitCount.toNat - (index + 1)) + 1 := by omega
      rw [ih, setByte_bits, hlen]
      rfl
    · rw [show min (count + 1) (b.bitCount.toNat - index) = 0 by omega]
      rfl

/-- Setting a range of bits, read back. -/
theorem bitmapGetBit_set (b : Bitmap) (index count : Nat) (bit : Int) (j : Nat) :
    bitmapGetBit (bitmapSetBit b index count bit) j =
      if index ≤ j ∧ j < index + count ∧ (j : Int) < b.bitCount then
        (if bit ≠ 0 then 1 else 0)
      else bitmapGetBit b j := by
  rw [bitmapGetBit_eq, bitmapGetBit_eq, bitmapSetBit_bits, PackedBits.bit_putRange (by omega)]
  have hrange : (index ≤ j ∧ j < index + min count (b.bitCount.toNat - index)) ↔
      index ≤ j ∧ j < index + count ∧ (j : Int) < b.bitCount := by omega
  by_cases hj : index ≤ j ∧ j < index + count ∧ (j : Int) < b.bitCount
  · rw [if_pos hj, if_pos (hrange.mpr hj)]
    simp
  · rw [if_neg hj, if_neg (fun h => hj (hrange.mp h))]

/-- No bit is at or above the bit count. -/
theorem bitmapSetBit_outside {b : Bitmap} {i n : Nat} {bit : Int} (hi : b.bitCount ≤ i) :
    bitmapSetBit b i n bit = b := by
  cases n with
  | zero => rfl
  | succ n =>
    unfold bitmapSetBit
    rw [if_neg (by omega)]

/-- The three ways the inner loop ends, after `k` bits that agree: at the last bit to look
at, at the end of the bitmap, or behind a bit that differs. -/
theorem bitmapScan_cases (b : Bitmap) (bit : Int) (count i s : Nat) (hi : i ≤ count) :
    ∃ k, i + k ≤ count ∧ (∀ j < k, bitmapGetBit b (s + j) = bit) ∧
      (k = 0 ∨ ((s + k : Nat) : Int) ≤ b.bitCount) ∧
      ((i + k = count ∧ bitmapScan b bit count i s = (count, s + k)) ∨
       (i + k < count ∧ b.bitCount ≤ ((s + k : Nat) : Int) ∧
         bitmapScan b bit count i s = (i + k, s + k)) ∨
       (i + k < count ∧ ((s + k : Nat) : Int) < b.bitCount ∧ bitmapGetBit b (s + k) ≠ bit ∧
         bitmapScan b bit count i s = (i + k, s + k + 1))) := by
  fun_induction bitmapScan b bit count i s with
  | case1 i s hin hne =>
    exact ⟨0, hi, by simp, Or.inl rfl, Or.inr (Or.inr ⟨hin.1, hin.2, hne, rfl⟩)⟩
  | case2 i s hin heq ih =>
    obtain ⟨k, hk, hall, hend, hcases⟩ := ih (by omega)
    have hs : s + (k + 1) = s + 1 + k := by omega
    have hik : i + (k + 1) = i + 1 + k := by omega
    refine ⟨k + 1, by omega, fun j hj => ?_, Or.inr ?_, ?_⟩
    · -- The bit at `s` agrees, and the others are those of the rest of the loop.
      cases j with
      | zero => exact not_not.mp heq
      | succ j =>
        rw [show s + (j + 1) = s + 1 + j by omega]
        exact hall j (by omega)
    · rcases hend with rfl | hend <;> omega
    · rw [hs, hik]
      exact hcases
  | case3 i s hout =>
    refine ⟨0, hi, by simp, Or.inl rfl, ?_⟩
    rcases Nat.lt_or_ge i count with hlt | hge
    · exact Or.inr (Or.inl ⟨by omega, by omega, rfl⟩)
    · exact Or.inl ⟨by omega, by rw [show i = count by omega]; rfl⟩

/-- The bits that a search for `bit` can use. -/
def Agrees (b : Bitmap) (bit : Int) (j : Nat) : Prop := bitmapGetBit b j = bit

instance (b : Bitmap) (bit : Int) (j : Nat) : Decidable (Agrees b bit j) :=
  inferInstanceAs (Decidable (bitmapGetBit b j = bit))

/-- The outer loop finds the first run of `max 1 (count - 1)` bits, when none starts before
it. -/
theorem bitmapSearch_cases (b : Bitmap) (bit : Int) (count s : Nat) (hcount : 1 ≤ count)
    (hs : ∀ j < s, ¬ Fits (Agrees b bit) b.bitCount.toNat (max 1 (count - 1)) j) :
    (∃ i, First (Agrees b bit) b.bitCount.toNat (max 1 (count - 1)) i ∧
      bitmapSearch b bit count s = (some i, bitmapSetBit b i count (-bit - 1))) ∨
    ((∀ i, ¬ Fits (Agrees b bit) b.bitCount.toNat (max 1 (count - 1)) i) ∧
      bitmapSearch b bit count s = (none, b)) := by
  fun_induction bitmapSearch b bit count s with
  | case1 s hin hne ih =>
    refine ih fun j hj => ?_
    rcases Nat.lt_succ_iff_lt_or_eq.mp hj with hlt | rfl
    · exact hs j hlt
    · exact not_fits_of_bad hne (Nat.le_refl _) (by omega)
  | case2 s hin heq hi =>
    -- The inner loop has counted up to `count`, so the run is long enough.
    left
    obtain ⟨k, hk, hall, hend, hcases⟩ := bitmapScan_cases b bit count 1 s hcount
    rcases hcases with ⟨hc, he⟩ | ⟨hc, -, he⟩ | ⟨hc, -, -, he⟩
    · refine ⟨s, ⟨⟨by omega, fun j hj => ?_⟩, hs⟩, rfl⟩
      by_cases hj0 : j = 0
      · subst hj0
        exact not_not.mp heq
      · exact hall j (by omega)
    · rw [he] at hi
      exact absurd hi (by simp; omega)
    · rw [he] at hi
      exact absurd hi (by simp; omega)
  | case3 s hin heq hi ih =>
    -- The inner loop has stopped early, and no run starts where it has looked.
    apply ih
    obtain ⟨k, hk, hall, hend, hcases⟩ := bitmapScan_cases b bit count 1 s hcount
    rcases hcases with ⟨hc, he⟩ | ⟨hc, hout, he⟩ | ⟨hc, -, hbad, he⟩
    · rw [he] at hi
      exact absurd (Nat.le_refl _) hi
    · rw [he]
      intro j hj
      rcases Nat.lt_or_ge j s with hlt | hge
      · exact hs j hlt
      · exact not_fits_of_end (by omega)
    · rw [he]
      intro j hj
      rcases Nat.lt_or_ge j s with hlt | hge
      · exact hs j hlt
      · exact not_fits_of_bad hbad (by simp at hj; omega) (by omega)
  | case4 s hout =>
    right
    refine ⟨fun i => ?_, rfl⟩
    rcases Nat.lt_or_ge i s with hlt | hge
    · exact hs i hlt
    · exact not_fits_of_end (by omega)

/-- `bitmap_alloc_nbits` finds the first run of `max 1 (count - 1)` bits and sets `count` bits
from there, or finds no such run and changes nothing. -/
theorem bitmapAllocNbits_cases (b : Bitmap) (bit : Int) (count : Nat) (hcount : 1 ≤ count) :
    (∃ i, First (Agrees b bit) b.bitCount.toNat (max 1 (count - 1)) i ∧
      bitmapAllocNbits b bit count = (some i, bitmapSetBit b i count (-bit - 1))) ∨
    ((∀ i, ¬ Fits (Agrees b bit) b.bitCount.toNat (max 1 (count - 1)) i) ∧
      bitmapAllocNbits b bit count = (none, b)) :=
  bitmapSearch_cases b bit count 0 hcount (by simp)

/-- A search does not change the bit count. -/
theorem bitmapAllocNbits_bitCount (b : Bitmap) (bit : Int) (count : Nat) :
    (bitmapAllocNbits b bit count).2.bitCount = b.bitCount := by
  unfold bitmapAllocNbits
  fun_induction bitmapSearch b bit count 0 with
  | case1 s hin hne ih => exact ih
  | case2 s hin heq hi => exact bitmapSetBit_bitCount b s count (-bit - 1)
  | case3 s hin heq hi ih => exact ih
  | case4 s hout => rfl

end StartKernel
