import Mathlib.Data.Nat.Basic
import Mathlib.Tactic.Ring

/-!
# `StartKernel.Lib.ByteMem`: byte memory with 32-bit words

A memory gives a byte to each address. `load32` and `store32` read and write little-endian
words, `fill` writes one byte value over a range and `copyFrom` copies bytes that a reader
finds, which may fail.

* `load32_store32`: a stored word is read back.
* `load32_congr`: a read depends on four bytes only.
* `fill_apply`: the loop of `fill` as one assignment.
* `AgreeOff`: two memories that differ inside some ranges only. Stores, fills and copies
  are such changes (`agreeOff_store32`, `agreeOff_fill`, `agreeOff_copyFrom`), and they
  compose (`AgreeOff.trans`).
* `copyFrom_of_reads`: when a copy returns, and what it has written.
-/

set_option autoImplicit false

namespace ByteMem

/-- A memory: one byte for each address. -/
abbrev Mem := Nat → BitVec 8

/-- One byte is stored. -/
def store8 (m : Mem) (a : Nat) (v : BitVec 8) : Mem := fun x => if x = a then v else m x

/-- The little-endian word at an address. -/
def load32 (m : Mem) (a : Nat) : Nat :=
  (m a).toNat + 256 * (m (a + 1)).toNat + 256 ^ 2 * (m (a + 2)).toNat
    + 256 ^ 3 * (m (a + 3)).toNat

/-- The word `v` is stored little-endian. -/
def store32 (m : Mem) (a v : Nat) : Mem := fun x =>
  if a ≤ x ∧ x < a + 4 then BitVec.ofNat 8 (v / 256 ^ (x - a)) else m x

/-- A loop that stores the byte `v` at `n` addresses from `a` on. -/
def fill (m : Mem) (a : Nat) (v : BitVec 8) : Nat → Mem
  | 0 => m
  | n + 1 => fill (store8 m a v) (a + 1) v n

/-- A loop that copies `n` bytes. Each byte is read from the memory as it is at that point of
the loop; nothing, when a read fails. -/
def copyFrom (read : Mem → Nat → Option (BitVec 8)) (m : Mem) (dst src : Nat) :
    Nat → Option Mem
  | 0 => some m
  | n + 1 => (read m src).bind fun b => copyFrom read (store8 m dst b) (dst + 1) (src + 1) n

variable {m m' m'' : Mem} {a b v n x : Nat}

@[simp] theorem store8_same (m : Mem) (a : Nat) (v : BitVec 8) : store8 m a v a = v := if_pos rfl

/-- A store changes one byte only. -/
theorem store8_apart (m : Mem) (v : BitVec 8) (h : x ≠ a) : store8 m a v x = m x := if_neg h

/-- A word is below `2^32`. -/
theorem load32_lt (m : Mem) (a : Nat) : load32 m a < 2 ^ 32 := by
  have h₀ := (m a).isLt
  have h₁ := (m (a + 1)).isLt
  have h₂ := (m (a + 2)).isLt
  have h₃ := (m (a + 3)).isLt
  unfold load32
  omega

/-- A read depends on four bytes. -/
theorem load32_congr (h : ∀ x, a ≤ x → x < a + 4 → m' x = m x) : load32 m' a = load32 m a := by
  have h₀ := h a (by omega) (by omega)
  have h₁ := h (a + 1) (by omega) (by omega)
  have h₂ := h (a + 2) (by omega) (by omega)
  have h₃ := h (a + 3) (by omega) (by omega)
  unfold load32
  rw [h₀, h₁, h₂, h₃]

/-- One byte of a stored word. -/
theorem store32_byte (m : Mem) (a v : Nat) {k : Nat} (hk : k < 4) :
    (store32 m a v (a + k)).toNat = v / 256 ^ k % 256 := by
  unfold store32
  rw [if_pos (by omega), Nat.add_sub_cancel_left, BitVec.toNat_ofNat]

/-- A stored word is read back. -/
theorem load32_store32 (m : Mem) (a : Nat) (hv : v < 2 ^ 32) : load32 (store32 m a v) a = v := by
  have h₀ := store32_byte m a v (k := 0) (by omega)
  have h₁ := store32_byte m a v (k := 1) (by omega)
  have h₂ := store32_byte m a v (k := 2) (by omega)
  have h₃ := store32_byte m a v (k := 3) (by omega)
  rw [Nat.add_zero] at h₀
  unfold load32
  rw [h₀, h₁, h₂, h₃]
  omega

/-- A store changes the bytes of its word only. -/
theorem store32_apart (m : Mem) (v : Nat) (h : x < a ∨ a + 4 ≤ x) : store32 m a v x = m x := by
  unfold store32
  rw [if_neg (by omega)]

/-- A store leaves every word apart from it as it is. -/
theorem load32_store32_apart (m : Mem) (v : Nat) (h : b + 4 ≤ a ∨ a + 4 ≤ b) :
    load32 (store32 m a v) b = load32 m b :=
  load32_congr fun x h₁ h₂ => store32_apart m v (by omega)

/-- The loop of `fill` as one assignment. -/
theorem fill_apply (m : Mem) (a : Nat) (v : BitVec 8) (n x : Nat) :
    fill m a v n x = if a ≤ x ∧ x < a + n then v else m x := by
  induction n generalizing m a with
  | zero => simp only [fill]; rw [if_neg (by omega)]
  | succ n ih =>
    show fill (store8 m a v) (a + 1) v n x = _
    rw [ih]
    unfold store8
    -- The first byte of the range is the one stored in front of the recursion.
    by_cases hx : x = a
    · rw [if_neg (by omega), if_pos hx, if_pos (by omega)]
    · rw [if_neg hx]
      congr 1
      simp only [eq_iff_iff]
      omega

/-- A word inside a range filled with zeros. -/
theorem load32_fill_zero (m : Mem) (h₁ : a ≤ b) (h₂ : b + 4 ≤ a + n) :
    load32 (fill m a 0#8 n) b = 0 := by
  unfold load32
  simp only [fill_apply]
  rw [if_pos (by omega), if_pos (by omega), if_pos (by omega), if_pos (by omega)]
  rfl

/-! ### Memories that agree outside some ranges -/

/-- The memories agree on every byte for which `W` does not hold. -/
def AgreeOff (W : Nat → Prop) (m m' : Mem) : Prop := ∀ x, ¬ W x → m' x = m x

variable {W W' : Nat → Prop}

theorem AgreeOff.refl (W : Nat → Prop) (m : Mem) : AgreeOff W m m := fun _ _ => rfl

theorem AgreeOff.trans (h : AgreeOff W m m') (h' : AgreeOff W m' m'') : AgreeOff W m m'' :=
  fun x hx => (h' x hx).trans (h x hx)

/-- More bytes may differ. -/
theorem AgreeOff.mono (h : AgreeOff W m m') (hW : ∀ x, W x → W' x) : AgreeOff W' m m' :=
  fun x hx => h x fun hw => hx (hW x hw)

theorem agreeOff_store32 (m : Mem) (v : Nat) (h : ∀ x, a ≤ x → x < a + 4 → W x) :
    AgreeOff W m (store32 m a v) := by
  intro x hx
  refine store32_apart m v ?_
  by_contra hin
  exact hx (h x (by omega) (by omega))

theorem agreeOff_fill (m : Mem) (v : BitVec 8) (h : ∀ x, a ≤ x → x < a + n → W x) :
    AgreeOff W m (fill m a v n) := by
  intro x hx
  rw [fill_apply, if_neg fun hin => hx (h x hin.1 hin.2)]

theorem agreeOff_copyFrom {read : Mem → Nat → Option (BitVec 8)} {dst src : Nat}
    (h : ∀ x, dst ≤ x → x < dst + n → W x) (he : copyFrom read m dst src n = some m') :
    AgreeOff W m m' := by
  induction n generalizing m dst src with
  | zero =>
    obtain rfl : m = m' := Option.some.inj he
    exact AgreeOff.refl W m
  | succ n ih =>
    obtain ⟨b, -, hb⟩ := Option.bind_eq_some_iff.mp he
    intro x hx
    have hrest := ih (fun x h₁ h₂ => h x (by omega) (by omega)) hb x hx
    rw [hrest]
    unfold store8
    rw [if_neg]
    intro hxd
    exact hx (h x (by omega) (by omega))

/-- A copy whose reads give the bytes `f` while only the destination changes. It returns, and the
destination has these bytes. -/
theorem copyFrom_of_reads {read : Mem → Nat → Option (BitVec 8)} {dst src : Nat}
    {f : Nat → BitVec 8} (h : ∀ m' k, k < n → AgreeOff (fun x => dst ≤ x ∧ x < dst + n) m m' →
      read m' (src + k) = some (f k)) :
    ∃ m', copyFrom read m dst src n = some m' ∧ ∀ k < n, m' (dst + k) = f k := by
  induction n generalizing m dst src f with
  | zero => exact ⟨m, rfl, fun k hk => absurd hk (Nat.not_lt_zero k)⟩
  | succ n ih =>
    have hfirst : read m src = some (f 0) := h m 0 (Nat.succ_pos n) (AgreeOff.refl _ m)
    -- The first byte is stored inside the destination, so the other reads are as before.
    have hrest : ∀ m' k, k < n →
        AgreeOff (fun x => dst + 1 ≤ x ∧ x < dst + 1 + n) (store8 m dst (f 0)) m' →
        read m' (src + 1 + k) = some (f (k + 1)) := by
      intro m' k hk hagree
      rw [Nat.add_assoc, Nat.add_comm 1 k]
      refine h m' (k + 1) (by omega) fun x hx => ?_
      rw [hagree x (by omega)]
      show (if x = dst then f 0 else m x) = m x
      rw [if_neg (by omega)]
    obtain ⟨m', he, hbytes⟩ := ih hrest
    refine ⟨m', ?_, fun k hk => ?_⟩
    · show (read m src).bind _ = _
      rw [hfirst]
      exact he
    · cases k with
      | zero =>
        -- The rest of the loop does not write to the first byte again.
        have hkeep := agreeOff_copyFrom (fun x h₁ h₂ => And.intro h₁ h₂) he dst (by omega)
        rw [Nat.add_zero, hkeep]
        show (if dst = dst then f 0 else m dst) = f 0
        rw [if_pos rfl]
      | succ k =>
        have hbyte := hbytes k (by omega)
        rwa [Nat.add_assoc, Nat.add_comm 1 k] at hbyte

/-- A word whose bytes all agree. -/
theorem AgreeOff.load32 (h : AgreeOff W m m') (hW : ∀ x, a ≤ x → x < a + 4 → ¬ W x) :
    load32 m' a = ByteMem.load32 m a :=
  load32_congr fun x h₁ h₂ => h x (hW x h₁ h₂)

end ByteMem
