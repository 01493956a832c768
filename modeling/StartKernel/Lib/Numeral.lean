import Mathlib.Data.Nat.Digits.Lemmas

/-!
# `StartKernel.Lib.Numeral`: numerals

`numeral b v` are the digits of `v` in the base `b`, the most significant one first, with one digit
for 0. `value` reads digits back by Horner's rule. A digit is written as a byte by `digitByte`, from
`0` to `9` and then from `A` on, and `readNat` reads such bytes back. `text b v` is the numeral of
`v` in bytes.

* `value_numeral`: the digits of a number are read back as the number.
* `numeral_lt`, `numeral_head`: the digits are below the base, and the first one is not 0, except
  in the numeral of 0.
* `numeral_reverse`: the digits one by one, the least significant one first.
* `readNat_text`, `canonical_text`: a text is read back as its number, and it has no superfluous
  zeros.
-/

set_option autoImplicit false

namespace Numeral

/-- The digits of a number, the most significant one first. -/
def numeral (b v : Nat) : List Nat := if v = 0 then [0] else (Nat.digits b v).reverse

/-- The number with these digits. -/
def value (b : Nat) (ds : List Nat) : Nat := ds.foldl (fun acc d => acc * b + d) 0

/-- A digit as a byte. -/
def digitByte (d : Nat) : BitVec 8 := BitVec.ofNat 8 (if d < 10 then 48 + d else 55 + d)

/-- The digit that a byte stands for. -/
def byteDigit (c : BitVec 8) : Option Nat :=
  if 48 ≤ c.toNat ∧ c.toNat ≤ 57 then some (c.toNat - 48)
  else if 65 ≤ c.toNat ∧ c.toNat ≤ 90 then some (c.toNat - 55)
  else none

/-- Reads a number in the base `b`. Nothing, for a byte that is not a digit of the base. -/
def readNat (b : Nat) (s : List (BitVec 8)) : Option Nat :=
  s.foldl (fun acc c => acc.bind fun v => (byteDigit c).bind fun d =>
    if d < b then some (v * b + d) else none) (some 0)

/-- The numeral of a number, in bytes. -/
def text (b v : Nat) : List (BitVec 8) := (numeral b v).map digitByte

/-- Digits of the base `b`, at least one, and the first one is 0 only when it is the only one. -/
structure Canonical (b : Nat) (s : List (BitVec 8)) : Prop where
  ne_nil : s ≠ []
  digits : ∀ c ∈ s, ∃ d < b, c = digitByte d
  lead : s.head? = some (digitByte 0) → s = [digitByte 0]

variable {b v d : Nat} {ds : List Nat} {s : List (BitVec 8)}

/-- One more digit at the end is one more step of Horner's rule. -/
theorem value_append (b : Nat) (ds : List Nat) (d : Nat) :
    value b (ds ++ [d]) = value b ds * b + d := by
  unfold value
  rw [List.foldl_append]
  rfl

/-- Horner's rule and the digits in the other order. -/
theorem value_reverse (b : Nat) (ds : List Nat) : value b ds.reverse = Nat.ofDigits b ds := by
  induction ds with
  | nil => rfl
  | cons d ds ih =>
    rw [List.reverse_cons, value_append, ih, Nat.ofDigits_cons, Nat.mul_comm, Nat.add_comm]

/-- The digits of a number are read back as the number. -/
theorem value_numeral (b v : Nat) : value b (numeral b v) = v := by
  unfold numeral
  split
  · rename_i hv
    subst hv
    show 0 * b + 0 = 0
    rw [Nat.zero_mul]
  · rw [value_reverse, Nat.ofDigits_digits]

/-- The digits are below the base. -/
theorem numeral_lt (hb : 2 ≤ b) : ∀ d ∈ numeral b v, d < b := by
  intro d hd
  unfold numeral at hd
  split at hd
  · obtain rfl := List.mem_singleton.mp hd
    omega
  · exact Nat.digits_lt_base (by omega) (List.mem_reverse.mp hd)

/-- There is at least one digit. -/
theorem numeral_ne_nil (b v : Nat) : numeral b v ≠ [] := by
  unfold numeral
  split
  · exact List.cons_ne_nil 0 []
  · rename_i hv
    rw [ne_eq, List.reverse_eq_nil_iff]
    exact Nat.digits_ne_nil_iff_ne_zero.mpr hv

/-- The first digit is not 0, except in the numeral of 0. -/
theorem numeral_head (hv : v ≠ 0) : (numeral b v).head? ≠ some 0 := by
  unfold numeral
  rw [if_neg hv, List.head?_reverse, List.getLast?_eq_getLast_of_ne_nil
    (Nat.digits_ne_nil_iff_ne_zero.mpr hv)]
  intro hzero
  exact Nat.getLast_digit_ne_zero b hv (Option.some.inj hzero)

/-- The digits one by one, the least significant one first. -/
theorem numeral_reverse (hb : 2 ≤ b) (v : Nat) :
    (numeral b v).reverse = v % b :: if v / b = 0 then [] else (numeral b (v / b)).reverse := by
  by_cases hv : v = 0
  · -- The numeral of 0 has the digit 0, which `Nat.digits` does not have.
    subst hv
    rw [Nat.zero_div, if_pos rfl, Nat.zero_mod]
    rfl
  · have hdigits : (numeral b v).reverse = Nat.digits b v := by
      unfold numeral
      rw [if_neg hv, List.reverse_reverse]
    rw [hdigits, Nat.digits_def' (by omega) (by omega)]
    congr 1
    unfold numeral
    split
    · rename_i hdiv
      rw [hdiv, Nat.digits_zero]
    · rw [List.reverse_reverse]

/-- A digit is read back. -/
theorem byteDigit_digitByte (hd : d < 36) : byteDigit (digitByte d) = some d := by
  have hall : ∀ d < 36, byteDigit (digitByte d) = some d := by decide
  exact hall d hd

/-- The bytes of digits are read back as the number with these digits. -/
theorem readNat_map (hb : b ≤ 36) (hds : ∀ d ∈ ds, d < b) :
    readNat b (ds.map digitByte) = some (value b ds) := by
  induction ds using List.reverseRecOn with
  | nil => rfl
  | append_singleton ds d ih =>
    have hd : d < b := hds d (by simp)
    have hrest := ih fun e he => hds e (by simp [he])
    rw [List.map_append, value_append]
    unfold readNat at hrest ⊢
    rw [List.foldl_append, hrest, List.map_singleton, List.foldl_cons, List.foldl_nil,
      Option.bind_some, byteDigit_digitByte (by omega), Option.bind_some, if_pos hd]

/-- A text is read back as its number. -/
theorem readNat_text (h₁ : 2 ≤ b) (h₂ : b ≤ 36) (v : Nat) : readNat b (text b v) = some v := by
  unfold text
  rw [readNat_map h₂ (numeral_lt h₁), value_numeral]

/-- The byte of a digit other than 0. -/
theorem digitByte_ne_zero_digit (hd : d < 36) (hne : d ≠ 0) : digitByte d ≠ digitByte 0 := by
  intro he
  have hback := congrArg byteDigit he
  rw [byteDigit_digitByte hd, byteDigit_digitByte (by omega)] at hback
  exact hne (Option.some.inj hback)

/-- The byte of a digit is none of the bytes below `0`. -/
theorem digitByte_toNat (hd : d < 36) : 48 ≤ (digitByte d).toNat := by
  have hall : ∀ d < 36, 48 ≤ (digitByte d).toNat := by decide
  exact hall d hd

/-- The bytes of a text. -/
theorem mem_text (hb : 2 ≤ b) {c : BitVec 8} (hc : c ∈ text b v) : ∃ d < b, c = digitByte d := by
  obtain ⟨d, hd, rfl⟩ := List.mem_map.mp hc
  exact ⟨d, numeral_lt hb d hd, rfl⟩

/-- A text has no byte below `0`. -/
theorem le_of_mem_text (h₁ : 2 ≤ b) (h₂ : b ≤ 36) {c : BitVec 8} (hc : c ∈ text b v) :
    48 ≤ c.toNat := by
  obtain ⟨d, hd, rfl⟩ := mem_text h₁ hc
  exact digitByte_toNat (by omega)

/-- A text has no zero byte. -/
theorem ne_zero_of_mem_text (h₁ : 2 ≤ b) (h₂ : b ≤ 36) {c : BitVec 8} (hc : c ∈ text b v) :
    c ≠ 0#8 := by
  rintro rfl
  exact absurd (le_of_mem_text h₁ h₂ hc) (by decide)

theorem text_ne_nil (b v : Nat) : text b v ≠ [] := by
  unfold text
  rw [ne_eq, List.map_eq_nil_iff]
  exact numeral_ne_nil b v

/-- A text has no superfluous zeros. -/
theorem canonical_text (h₁ : 2 ≤ b) (h₂ : b ≤ 36) (v : Nat) : Canonical b (text b v) where
  ne_nil := text_ne_nil b v
  digits _ hc := mem_text h₁ hc
  lead := by
    intro hzero
    by_cases hv : v = 0
    · subst hv
      rfl
    · -- The first byte is the one of the first digit, which is not 0.
      unfold text at hzero
      rw [List.head?_map] at hzero
      obtain ⟨d, hd, he⟩ := Option.map_eq_some_iff.mp hzero
      have hlt : d < b := numeral_lt h₁ d (List.mem_of_mem_head? hd)
      have hne : d ≠ 0 := by
        rintro rfl
        exact numeral_head hv hd
      exact absurd he (digitByte_ne_zero_digit (by omega) hne)

/-- The number of digits. -/
theorem length_text_le (hb : 2 ≤ b) {k : Nat} (hk : 1 ≤ k) (hv : v < 2 ^ k) :
    (text b v).length ≤ k := by
  unfold text numeral
  rw [List.length_map]
  split
  · exact hk
  · rw [List.length_reverse, Nat.digits_length_le_iff (by omega)]
    exact lt_of_lt_of_le hv (Nat.pow_le_pow_left hb k)

/-- A number below `b ^ k` has at most `k` digits. -/
theorem length_text_le_pow (hb : 2 ≤ b) {k : Nat} (hk : 1 ≤ k) (hv : v < b ^ k) :
    (text b v).length ≤ k := by
  unfold text numeral
  rw [List.length_map]
  split
  · exact hk
  · rw [List.length_reverse, Nat.digits_length_le_iff (by omega)]
    exact hv

end Numeral
