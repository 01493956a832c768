import Mathlib.Logic.Basic

/-!
# `StartKernel.Lib.PackedBits`: bits packed into words

The bit with the index `i` is the bit `i % w` of the word `i / w`. `putBit` sets or clears one bit
of a word with a mask, `put` does this to the bit with an index, and `putRange` to a range of
indices, one after the other.

* `and_mask_ne_zero`: a bit is read with the same mask.
* `putBit_promoted`, `mask_promoted`: the operations may be done on a wider word.
* `bit_put`, `bit_putRange`: the bits that change.
* `words_ext`: words with the same bits are the same.
-/

set_option autoImplicit false

namespace PackedBits

variable {w n : Nat} {v : BitVec w} {words words' : Nat → BitVec w} {i j k l : Nat} {b : Bool}

/-- The bit with the index `i`. -/
def bit (words : Nat → BitVec w) (i : Nat) : Bool := (words (i / w)).getLsbD (i % w)

/-- One bit of a word is set or cleared. -/
def putBit (v : BitVec w) (k : Nat) (b : Bool) : BitVec w :=
  if b then v ||| (1#w <<< k) else v &&& ~~~(1#w <<< k)

/-- The bit with the index `i` is set or cleared. -/
def put (words : Nat → BitVec w) (i : Nat) (b : Bool) : Nat → BitVec w := fun j =>
  if j = i / w then putBit (words (i / w)) (i % w) b else words j

/-- The `n` bits from the index `i` on are set or cleared. -/
def putRange (words : Nat → BitVec w) (i : Nat) (b : Bool) : Nat → Nat → BitVec w
  | 0 => words
  | n + 1 => putRange (put words i b) (i + 1) b n

/-! ### One word -/

/-- A word has a common bit with a mask of one bit when it has this bit. -/
theorem and_mask_ne_zero (hk : k < w) : v &&& (1#w <<< k) ≠ 0#w ↔ v.getLsbD k = true := by
  rw [← BitVec.twoPow_eq, BitVec.and_twoPow]
  cases hbit : v.getLsbD k with
  | false => simp
  | true =>
    -- The mask is not zero, since it has the bit `k`.
    have hmask : BitVec.twoPow w k ≠ 0#w := by
      intro hzero
      have hone : (BitVec.twoPow w k).getLsbD k = true := by
        rw [BitVec.getLsbD_twoPow]
        simp [hk]
      rw [hzero, BitVec.getLsbD_zero] at hone
      exact Bool.false_ne_true hone
    simp [hmask]

/-- One bit of a word changes. -/
theorem getLsbD_putBit (hk : k < w) :
    (putBit v k b).getLsbD l = if l = k then b else v.getLsbD l := by
  have hmask : (1#w <<< k).getLsbD l = decide (k = l) := by
    rw [← BitVec.twoPow_eq, BitVec.getLsbD_twoPow, decide_eq_true hk, Bool.true_and]
  by_cases hlt : l < w
  · cases b with
    | true =>
      rw [show putBit v k true = v ||| (1#w <<< k) from rfl, BitVec.getLsbD_or, hmask]
      by_cases hl : l = k
      · simp [hl]
      · simp [hl, Ne.symm hl]
    | false =>
      rw [show putBit v k false = v &&& ~~~(1#w <<< k) from rfl, BitVec.getLsbD_and,
        BitVec.getLsbD_not, hmask]
      by_cases hl : l = k
      · simp [hl]
      · simp [hl, hlt, Ne.symm hl]
  · -- There is no such bit.
    have hge : ∀ x : BitVec w, x.getLsbD l = false := fun x =>
      BitVec.getLsbD_of_ge x l (Nat.le_of_not_lt hlt)
    rw [hge, hge, if_neg (by omega)]

/-- The operation on a wider word, with the result cut off, is the one on the word. -/
theorem putBit_promoted (hk : k < w) (hn : w ≤ n) :
    (putBit (v.setWidth n) k b).setWidth w = putBit v k b := by
  apply BitVec.eq_of_getLsbD_eq
  intro l hl
  rw [BitVec.getLsbD_setWidth, getLsbD_putBit (Nat.lt_of_lt_of_le hk hn), getLsbD_putBit hk,
    BitVec.getLsbD_setWidth]
  simp [hl, Nat.lt_of_lt_of_le hl hn]

/-- A bit may be read from a wider word. -/
theorem mask_promoted (hk : k < w) (hn : w ≤ n) :
    v.setWidth n &&& (1#n <<< k) ≠ 0#n ↔ v.getLsbD k = true := by
  rw [and_mask_ne_zero (Nat.lt_of_lt_of_le hk hn), BitVec.getLsbD_setWidth]
  simp [Nat.lt_of_lt_of_le hk hn]

/-! ### Many words -/

/-- One bit changes. -/
theorem bit_put (hw : 0 < w) : bit (put words i b) j = if j = i then b else bit words j := by
  have hk : i % w < w := Nat.mod_lt i hw
  by_cases hword : j / w = i / w
  · rw [show bit (put words i b) j = (putBit (words (i / w)) (i % w) b).getLsbD (j % w) by
      simp [bit, put, hword], getLsbD_putBit hk]
    by_cases hj : j = i
    · rw [if_pos hj, if_pos (by rw [hj])]
    · -- Two bits of one word have different places.
      have hne : j % w ≠ i % w := by
        intro hmod
        apply hj
        rw [← Nat.div_add_mod j w, ← Nat.div_add_mod i w, hword, hmod]
      rw [if_neg hj, if_neg hne, bit, hword]
  · have hj : j ≠ i := fun h => hword (by rw [h])
    simp [bit, put, hword, hj]

/-- The bits of a range change. -/
theorem bit_putRange (hw : 0 < w) :
    bit (putRange words i b n) j = if i ≤ j ∧ j < i + n then b else bit words j := by
  induction n generalizing words i with
  | zero =>
    rw [if_neg (by omega)]
    rfl
  | succ n ih =>
    show bit (putRange (put words i b) (i + 1) b n) j = _
    rw [ih, bit_put hw]
    by_cases hj : j = i
    · rw [if_neg (by omega), if_pos hj, if_pos (by omega)]
    · rw [if_neg hj]
      exact if_congr (by omega) rfl rfl

/-- Words with the same bits are the same. -/
theorem words_ext (h : ∀ i, bit words i = bit words' i) : words = words' := by
  funext i
  apply BitVec.eq_of_getLsbD_eq
  intro k hk
  have hi := h (i * w + k)
  rwa [bit, bit, Nat.mul_add_mod_of_lt hk, Nat.mul_comm, Nat.mul_add_div (by omega),
    Nat.div_eq_of_lt hk, Nat.add_zero] at hi

end PackedBits
