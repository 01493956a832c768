import StartKernel.Lib.ByteMem

/-!
# `StartKernel.Lib.Words`: rows of words in byte memory

A row of 32-bit words at an address, as a list.

* `loadWords_storeWords`: a row that was stored is read back.
* `storeWords_apart`, `loadWords_congr`: the bytes outside of a row, and what a row depends on.
-/

set_option autoImplicit false

namespace ByteMem

variable {m m' : Mem} {a n x : Nat} {ws : List Nat}

/-- The `n` words from `a` on. -/
def loadWords (m : Mem) (a : Nat) : Nat → List Nat
  | 0 => []
  | n + 1 => load32 m a :: loadWords m (a + 4) n

/-- The words `ws` are stored from `a` on. -/
def storeWords (m : Mem) (a : Nat) : List Nat → Mem
  | [] => m
  | w :: ws => storeWords (store32 m a w) (a + 4) ws

@[simp] theorem loadWords_length (m : Mem) (a n : Nat) : (loadWords m a n).length = n := by
  induction n generalizing a with
  | zero => rfl
  | succ n ih => rw [loadWords, List.length_cons, ih]

/-- A row in two parts. -/
theorem loadWords_add (m : Mem) (a n k : Nat) :
    loadWords m a (n + k) = loadWords m a n ++ loadWords m (a + 4 * n) k := by
  induction n generalizing a with
  | zero => rw [Nat.zero_add, loadWords, List.nil_append, Nat.mul_zero, Nat.add_zero]
  | succ n ih =>
    rw [show n + 1 + k = n + k + 1 by omega, loadWords, ih, loadWords, List.cons_append,
      show a + 4 * (n + 1) = a + 4 + 4 * n by omega]

/-- The words of a row fit. -/
theorem loadWords_lt (m : Mem) (a n : Nat) : ∀ w ∈ loadWords m a n, w < 2 ^ 32 := by
  induction n generalizing a with
  | zero => exact fun w hw => absurd hw List.not_mem_nil
  | succ n ih =>
    intro w hw
    rcases List.mem_cons.mp hw with rfl | hw
    · exact load32_lt m a
    · exact ih (a + 4) w hw

/-- A row depends on its bytes. -/
theorem loadWords_congr (h : ∀ x, a ≤ x → x < a + 4 * n → m' x = m x) :
    loadWords m' a n = loadWords m a n := by
  induction n generalizing a with
  | zero => rfl
  | succ n ih =>
    rw [loadWords, loadWords, load32_congr fun x h₁ h₂ => h x h₁ (by omega),
      ih fun x h₁ h₂ => h x (by omega) (by omega)]

/-- A store of a row leaves the bytes outside alone. -/
theorem storeWords_apart (m : Mem) (h : x < a ∨ a + 4 * ws.length ≤ x) :
    storeWords m a ws x = m x := by
  induction ws generalizing m a with
  | nil => rfl
  | cons w ws ih =>
    rw [List.length_cons] at h
    rw [storeWords, ih _ (by omega), store32_apart m w (by omega)]

/-- A row is read back. -/
theorem loadWords_storeWords (m : Mem) (a : Nat) (h : ∀ w ∈ ws, w < 2 ^ 32) :
    loadWords (storeWords m a ws) a ws.length = ws := by
  induction ws generalizing m a with
  | nil => rfl
  | cons w ws ih =>
    have hfirst : load32 (storeWords m a (w :: ws)) a = w := by
      rw [storeWords, load32_congr fun x h₁ h₂ => storeWords_apart _ (Or.inl (by omega))]
      exact load32_store32 m a (h w List.mem_cons_self)
    rw [List.length_cons, loadWords, hfirst, storeWords,
      ih _ _ fun v hv => h v (List.mem_cons_of_mem w hv)]

end ByteMem
