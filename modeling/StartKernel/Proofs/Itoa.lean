import StartKernel.Lib.Numeral
import StartKernel.Tools.KlibString

/-!
# `StartKernel.Proofs.Itoa`: numerals of `kernel_itoa`

`kernel_itoa` writes the digits from the least significant one on and then turns them around in
place, behind the sign.

* `itoaUnsigned_spec`, `itoaSigned_neg`: the two loops write the same digits.
* `itoaReverse_spec`: the loop that turns bytes around.
* `kernelItoa_spec`: all that `kernel_itoa` writes.
* `kernelItoa_roundTrip`: the numeral is read back as the number.
-/

set_option autoImplicit false

namespace StartKernel

open ByteMem
open Numeral

variable {m : Mem} {a buf p n b v base : Nat} {num : Int} {s : List (BitVec 8)}

/-! ### The loops -/

/-- The table has the digit `d` in both halves. -/
theorem num2chAt_digit {d : Nat} (hd : d < 16) :
    num2chAt ((d : Int) + 15) = digitByte d ∧ num2chAt (-(d : Int) + 15) = digitByte d := by
  have hall : ∀ d : Nat, d < 16 → num2chAt ((d : Int) + 15) = digitByte d ∧
      num2chAt (-(d : Int) + 15) = digitByte d := by decide
  exact hall d hd

/-- The loop over a `uint32_t` writes the digits, the least significant one first. -/
theorem itoaUnsigned_spec (h₁ : 2 ≤ b) (h₂ : b ≤ 16) (hn : v < n) :
    itoaUnsigned m p v b n
      = some (storeBytes m p (text b v).reverse, p + (text b v).length) := by
  induction n generalizing m p v with
  | zero => exact absurd hn (Nat.not_lt_zero v)
  | succ n ih =>
    have hdigit := (num2chAt_digit (d := v % b)
      (lt_of_lt_of_le (Nat.mod_lt v (by omega)) h₂)).1
    have hfirst : (text b v).reverse
        = digitByte (v % b) :: if v / b = 0 then [] else (text b (v / b)).reverse := by
      unfold text
      rw [← List.map_reverse, numeral_reverse h₁, List.map_cons]
      split
      · rfl
      · rw [List.map_reverse]
    rw [← List.length_reverse, hfirst]
    unfold itoaUnsigned
    rw [hdigit]
    by_cases hlast : v / b = 0
    · -- The last digit.
      simp only [hlast, ne_eq, not_true_eq_false, if_false, if_true]
      rw [storeBytes_cons, storeBytes_nil]
      rfl
    · have hdiv : v / b < n := by
        have hlt : v / b < v := Nat.div_lt_self (Nat.pos_of_ne_zero fun hv => hlast
          (hv ▸ Nat.zero_div b)) h₁
        omega
      simp only [ne_eq, hlast, not_false_eq_true, if_true, if_false]
      rw [ih hdiv, storeBytes_cons, List.length_cons, List.length_reverse, Nat.add_assoc,
        Nat.add_comm 1]

/-- The loop over a negative number writes what the other one writes for its absolute value. -/
theorem itoaSigned_neg (h₁ : 2 ≤ b) (h₂ : b ≤ 16) :
    itoaSigned m p (-(v : Int)) b n = itoaUnsigned m p v b n := by
  induction n generalizing m p v with
  | zero => rfl
  | succ n ih =>
    have hmod : (-(v : Int)).tmod b = -((v % b : Nat) : Int) := by
      rw [Int.neg_tmod, ← Int.ofNat_tmod]
    have hdiv : (-(v : Int)).tdiv b = -((v / b : Nat) : Int) := by
      rw [Int.neg_tdiv, ← Int.ofNat_tdiv]
    have hlt : v % b < 16 := lt_of_lt_of_le (Nat.mod_lt v (by omega)) h₂
    obtain ⟨hpos, hneg⟩ := num2chAt_digit hlt
    unfold itoaSigned itoaUnsigned
    rw [hmod, hdiv, hpos, hneg]
    by_cases hlast : v / b = 0
    · simp [hlast]
    · have hlast' : -((v / b : Nat) : Int) ≠ 0 := by omega
      simp only [if_pos hlast', ne_eq, hlast, not_false_eq_true, if_true]
      exact ih

/-- The loop that turns bytes around in place. -/
theorem itoaReverse_spec (s : List (BitVec 8)) (m : Mem) (a n : Nat) (hn : s.length < n) :
    itoaReverse (storeBytes m a s) a (a + s.length - 1) n = some (storeBytes m a s.reverse) := by
  induction s using List.bidirectionalRec generalizing m a n with
  | nil =>
    -- Less than two bytes are turned around by doing nothing.
    obtain ⟨n, rfl⟩ := Nat.exists_eq_succ_of_ne_zero (by omega : n ≠ 0)
    unfold itoaReverse
    rw [if_neg (by simp)]
    rfl
  | singleton c =>
    obtain ⟨n, rfl⟩ := Nat.exists_eq_succ_of_ne_zero (by omega : n ≠ 0)
    unfold itoaReverse
    rw [if_neg (by simp)]
    rfl
  | cons_append c s d ih =>
    obtain ⟨n, rfl⟩ := Nat.exists_eq_succ_of_ne_zero (by omega : n ≠ 0)
    have hlen : (c :: (s ++ [d])).length = s.length + 2 := by simp
    rw [hlen] at hn ⊢
    have hend : a + (s.length + 2) - 1 = a + 1 + s.length := by omega
    -- The first and the last byte, and the ones between.
    have hmem : storeBytes m a (c :: (s ++ [d]))
        = store8 (storeBytes (store8 m a c) (a + 1) s) (a + 1 + s.length) d := by
      rw [storeBytes_cons, storeBytes_concat]
    have hfirst : storeBytes m a (c :: (s ++ [d])) a = c := by
      rw [hmem, store8_apart _ _ (by omega), storeBytes_outside (by omega), store8_same]
    have hlast : storeBytes m a (c :: (s ++ [d])) (a + 1 + s.length) = d := by
      rw [hmem, store8_same]
    unfold itoaReverse
    rw [hend, if_pos (by omega)]
    simp only [hfirst, hlast]
    have hswap : store8 (store8 (storeBytes m a (c :: (s ++ [d]))) a d) (a + 1 + s.length) c
        = storeBytes (store8 (store8 m a d) (a + 1 + s.length) c) (a + 1) s := by
      rw [← store8_storeBytes (Or.inr (Nat.le_refl _)), ← store8_storeBytes (by omega), hmem]
      funext x
      by_cases hx : x = a + 1 + s.length
      · rw [hx, store8_same, store8_same]
      · rw [store8_apart _ _ hx, store8_apart _ _ hx]
        by_cases hxa : x = a
        · rw [hxa, store8_same, store8_same]
        · rw [store8_apart _ _ hxa, store8_apart _ _ hxa, store8_apart _ _ hx,
            ← store8_storeBytes (by omega), store8_apart _ _ hxa]
    have hback : a + 1 + s.length - 1 = (a + 1) + s.length - 1 := rfl
    rw [hswap, hback, ih _ _ _ (by omega)]
    -- The bytes between, turned around, and the other two in each other's place.
    have hrev : (c :: (s ++ [d])).reverse = d :: (s.reverse ++ [c]) := by simp
    rw [hrev, storeBytes_cons, storeBytes_concat, List.length_reverse,
      store8_storeBytes (Or.inr (by rw [List.length_reverse]))]

/-- The digits of a number, turned around and ended. -/
theorem itoa_digits (m : Mem) (p : Nat) (h₁ : 2 ≤ b) (h₂ : b ≤ 16) (hv : v < 2 ^ 32) :
    (itoaUnsigned m p v b addrCount).bind
        (fun r => itoaReverse (store8 r.1 r.2 0#8) p (r.2 - 1) addrCount)
      = some (store8 (storeBytes m p (text b v)) (p + (text b v).length) 0#8) := by
  have hlen : (text b v).reverse.length = (text b v).length := List.length_reverse
  have hshort : (text b v).length ≤ 32 := length_text_le h₁ (by decide) hv
  have hend : ∀ s : List (BitVec 8), s.length = (text b v).length →
      store8 (storeBytes m p s) (p + (text b v).length) 0#8
        = storeBytes (store8 m (p + (text b v).length) 0#8) p s :=
    fun s hs => store8_storeBytes (Or.inr (by omega))
  rw [itoaUnsigned_spec h₁ h₂ (n := addrCount) (by unfold addrCount; omega), Option.bind_some]
  show itoaReverse (store8 (storeBytes m p (text b v).reverse) (p + (text b v).length) 0#8) p
    (p + (text b v).length - 1) addrCount = _
  have hturn := itoaReverse_spec (text b v).reverse (store8 m (p + (text b v).length) 0#8) p
    addrCount (by unfold addrCount; omega)
  rw [hlen, List.reverse_reverse] at hturn
  rw [hend _ hlen, hturn, hend _ rfl]

/-! ### The numeral -/

/-- The string that `kernel_itoa` writes. -/
def itoaText (num : Int) (base : Nat) : List (BitVec 8) :=
  if num < 0 ∧ base = 10 then char '-' :: text 10 (-num).toNat else text base (toU32 num)

/-- `kernel_itoa` writes the numeral and a zero byte behind it. -/
theorem kernelItoa_spec (m : Mem) (buf : Nat) (h₁ : -2 ^ 31 ≤ num)
    (hbase : base = 2 ∨ base = 8 ∨ base = 10 ∨ base = 16) :
    kernelItoa m buf num base = some (store8 (storeBytes m buf (itoaText num base))
      (buf + (itoaText num base).length) 0#8) := by
  have hsome : ¬ ((base : Int) ≠ 2 ∧ (base : Int) ≠ 8 ∧ (base : Int) ≠ 10 ∧ (base : Int) ≠ 16) := by
    omega
  have hten : ((base : Int) = 10) ↔ base = 10 := by omega
  unfold kernelItoa itoaText
  rw [if_neg hsome]
  simp only [hten]
  by_cases hneg : num < 0 ∧ base = 10
  · -- The sign comes first, and the digits are those of the absolute value.
    obtain ⟨hnum, rfl⟩ := hneg
    have hnat : num = -(((-num).toNat : Nat) : Int) := by omega
    rw [if_pos ⟨hnum, rfl⟩, if_pos ⟨hnum, rfl⟩]
    have hdigits := itoa_digits (store8 m buf (char '-')) (buf + 1) (b := 10) (v := (-num).toNat)
      (by decide) (by decide) (by omega)
    rw [← itoaSigned_neg (by decide) (by decide), ← hnat] at hdigits
    rw [storeBytes_cons, List.length_cons, Nat.add_comm (text 10 (-num).toNat).length,
      ← Nat.add_assoc]
    exact hdigits
  · rw [if_neg hneg, if_neg hneg, toU32_natCast (by omega)]
    exact itoa_digits m buf (by omega) (by omega) (toU32_lt num)

/-- A numeral has no zero byte. -/
theorem itoaText_ne_zero (num : Int) (hbase : base = 2 ∨ base = 8 ∨ base = 10 ∨ base = 16) :
    ∀ c ∈ itoaText num base, c ≠ 0#8 := by
  intro c hc
  unfold itoaText at hc
  split at hc
  · rcases List.mem_cons.mp hc with rfl | hc
    · decide
    · exact ne_zero_of_mem_text (by decide) (by decide) hc
  · exact ne_zero_of_mem_text (by omega) (by omega) hc

/-- Reads a number in the base `b`, with a sign in front of it or not. -/
def readInt (b : Nat) : List (BitVec 8) → Option Int
  | [] => none
  | c :: s =>
    if c = char '-' then (readNat b s).map fun v : Nat => -(v : Int)
    else (readNat b (c :: s)).map fun v : Nat => (v : Int)

/-- A text without a sign is read as its number. -/
theorem readInt_text (h₁ : 2 ≤ b) (h₂ : b ≤ 36) (v : Nat) :
    readInt b (text b v) = some (v : Int) := by
  have hread := readNat_text h₁ h₂ v
  have hbytes : ∀ c ∈ text b v, 48 ≤ c.toNat := fun c hc => le_of_mem_text h₁ h₂ hc
  have hne := text_ne_nil b v
  cases htext : text b v with
  | nil => exact absurd htext hne
  | cons c s =>
    rw [htext] at hread hbytes
    have hsign : c ≠ char '-' := by
      rintro rfl
      exact absurd (hbytes _ List.mem_cons_self) (by decide)
    show (if c = char '-' then _ else (readNat b (c :: s)).map fun v : Nat => (v : Int)) = _
    rw [if_neg hsign, hread]
    rfl

/-- Numerals are read back. For every `int` and each of the four bases, `kernel_itoa` writes a
string of digits of the base, in upper case and without superfluous zeros, with a sign in front
exactly for a negative number in base 10. Read back, it is the number itself in base 10, and the
number modulo `2^32` in the other bases. -/
theorem kernelItoa_roundTrip (m : Mem) (buf : Nat) (h₁ : -2 ^ 31 ≤ num) (h₂ : num < 2 ^ 31)
    (hbase : base = 2 ∨ base = 8 ∨ base = 10 ∨ base = 16) :
    ∃ m' sign ds, kernelItoa m buf num base = some m' ∧ IsStr m' buf (sign ++ ds) ∧
      sign = (if base = 10 ∧ num < 0 then [char '-'] else []) ∧ Canonical base ds ∧
      readInt base (sign ++ ds) = some (if base = 10 then num else num % 2 ^ 32) := by
  have hstr := isStr_storeBytes m buf (itoaText_ne_zero num hbase)
  by_cases hneg : num < 0 ∧ base = 10
  · obtain ⟨hnum, rfl⟩ := hneg
    have htext : itoaText num 10 = [char '-'] ++ text 10 (-num).toNat := if_pos ⟨hnum, rfl⟩
    rw [htext] at hstr
    refine ⟨_, [char '-'], text 10 (-num).toNat, kernelItoa_spec m buf h₁ hbase, ?_,
      (if_pos ⟨rfl, hnum⟩).symm, canonical_text (by decide) (by decide) _, ?_⟩
    · rw [htext]
      exact hstr
    · show (readNat 10 (text 10 (-num).toNat)).map (fun v : Nat => -(v : Int)) = _
      rw [readNat_text (by decide) (by decide), if_pos rfl, Option.map_some]
      congr 1
      omega
  · have htext : itoaText num base = [] ++ text base (toU32 num) := if_neg hneg
    rw [htext] at hstr
    refine ⟨_, [], text base (toU32 num), kernelItoa_spec m buf h₁ hbase, ?_,
      (if_neg fun h => hneg ⟨h.2, h.1⟩).symm, canonical_text (by omega) (by omega) _, ?_⟩
    · rw [htext]
      exact hstr
    · rw [List.nil_append, readInt_text (by omega) (by omega)]
      congr 1
      -- In base 10 the number is not negative here.
      unfold toU32
      split <;> omega

/-- The most negative number in base 10. -/
theorem kernelItoa_roundTrip_min : ∃ m' sign ds,
    kernelItoa (fun _ => 0#8) 100 (-2147483648) (10 : Nat) = some m' ∧
      IsStr m' 100 (sign ++ ds) ∧
      sign = (if (10 : Nat) = 10 ∧ (-2147483648 : Int) < 0 then [char '-'] else []) ∧
      Canonical 10 ds ∧
      readInt 10 (sign ++ ds)
        = some (if (10 : Nat) = 10 then -2147483648 else -2147483648 % 2 ^ 32) :=
  kernelItoa_roundTrip _ 100 (by decide) (by decide) (by decide)

end StartKernel
