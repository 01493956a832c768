import StartKernel.Lib.ByteMem

/-!
# `StartKernel.Lib.CString`: strings in byte memory

`IsStr m a s` says that the bytes `s` lie at the address `a`, that none of them is zero, and that a
zero byte ends them. `storeBytes` writes a list of bytes, and `LogMem` is a memory that keeps the
addresses that were written.

* `IsStr.right`, `IsStr.mem_or_stop`: the last part of a string, and its bytes.
* `IsStr.unique`: at one address there is one string.
* `IsStr.congr`: a string depends on its bytes and on the zero byte behind them.
* `storeBytes_append`, `store8_storeBytes`: writes one after the other, and writes that do not meet.
* `isStr_storeBytes`: bytes that were written with a zero byte behind them are a string.
-/

set_option autoImplicit false

namespace ByteMem

/-- A character as a byte. -/
def char (c : Char) : BitVec 8 := BitVec.ofNat 8 c.toNat

/-- The string `s` lies at the address `a`. -/
def IsStr (m : Mem) (a : Nat) : List (BitVec 8) → Prop
  | [] => m a = 0#8
  | c :: s => c ≠ 0#8 ∧ m a = c ∧ IsStr m (a + 1) s

instance decidableIsStr (m : Mem) (a : Nat) : ∀ s, Decidable (IsStr m a s)
  | [] => inferInstanceAs (Decidable (m a = 0#8))
  | c :: s =>
    have := decidableIsStr m (a + 1) s
    inferInstanceAs (Decidable (c ≠ 0#8 ∧ m a = c ∧ IsStr m (a + 1) s))

/-- The bytes `s` are written from `a` on. -/
def storeBytes (m : Mem) (a : Nat) (s : List (BitVec 8)) : Mem := fun x =>
  if x < a then m x else (s[x - a]?).getD (m x)

/-- A memory, and the addresses that were written. -/
structure LogMem where
  mem : Mem
  written : List Nat

/-- One byte is stored. -/
def LogMem.store8 (w : LogMem) (a : Nat) (v : BitVec 8) : LogMem :=
  ⟨ByteMem.store8 w.mem a v, a :: w.written⟩

variable {m m' : Mem} {a x : Nat} {s t : List (BitVec 8)} {c v : BitVec 8}

/-! ### Strings -/

/-- One byte of a string. -/
theorem IsStr.byte (h : IsStr m a s) {i : Nat} (hi : i < s.length) : s[i]? = some (m (a + i)) := by
  induction s generalizing a i with
  | nil => exact absurd hi (Nat.not_lt_zero i)
  | cons c s ih =>
    obtain ⟨-, hc, hs⟩ := h
    cases i with
    | zero => rw [Nat.add_zero, hc]; rfl
    | succ i =>
      have hbyte := ih hs (Nat.lt_of_succ_lt_succ hi)
      rw [Nat.add_assoc, Nat.add_comm 1 i] at hbyte
      exact hbyte

/-- The bytes of a string are not zero. -/
theorem IsStr.nonzero (h : IsStr m a s) : ∀ c ∈ s, c ≠ 0#8 := by
  induction s generalizing a with
  | nil => exact fun c hc => absurd hc List.not_mem_nil
  | cons c s ih =>
    obtain ⟨hc, -, hs⟩ := h
    intro d hd
    rcases List.mem_cons.mp hd with rfl | hd
    · exact hc
    · exact ih hs d hd

/-- The bytes of a string in memory are not zero. -/
theorem IsStr.ne_zero (h : IsStr m a s) {i : Nat} (hi : i < s.length) : m (a + i) ≠ 0#8 :=
  h.nonzero _ (List.mem_of_getElem? (h.byte hi))

/-- The byte behind a string. -/
theorem IsStr.stop (h : IsStr m a s) : m (a + s.length) = 0#8 := by
  induction s generalizing a with
  | nil => exact h
  | cons c s ih =>
    have hstop := ih h.2.2
    rw [Nat.add_assoc, Nat.add_comm 1] at hstop
    exact hstop

/-- The part of a string behind its first bytes. -/
theorem IsStr.right (h : IsStr m a (s ++ t)) : IsStr m (a + s.length) t := by
  induction s generalizing a with
  | nil => exact h
  | cons c s ih =>
    have hright := ih h.2.2
    rw [Nat.add_assoc, Nat.add_comm 1] at hright
    exact hright

/-- From the first byte to the zero byte there are the bytes of the string and the zero byte. -/
theorem IsStr.mem_or_stop (h : IsStr m a s) (h₁ : a ≤ x) (h₂ : x ≤ a + s.length) :
    m x ∈ s ∨ m x = 0#8 := by
  rcases Nat.lt_or_eq_of_le h₂ with hlt | rfl
  · have hbyte := h.byte (i := x - a) (by omega)
    rw [Nat.add_sub_cancel' h₁] at hbyte
    exact Or.inl (List.mem_of_getElem? hbyte)
  · exact Or.inr h.stop

/-- Bytes that are not zero, with a zero byte behind them, are a string. -/
theorem IsStr.intro (hbyte : ∀ i < s.length, s[i]? = some (m (a + i))) (hne : ∀ c ∈ s, c ≠ 0#8)
    (hstop : m (a + s.length) = 0#8) : IsStr m a s := by
  induction s generalizing a with
  | nil => exact hstop
  | cons c s ih =>
    have hfirst := hbyte 0 (Nat.succ_pos _)
    refine ⟨hne c List.mem_cons_self, (Option.some.inj hfirst).symm, ih (fun i hi => ?_)
      (fun d hd => hne d (List.mem_cons_of_mem c hd)) ?_⟩
    · have hrest := hbyte (i + 1) (Nat.succ_lt_succ hi)
      rw [Nat.add_assoc, Nat.add_comm 1 i]
      exact hrest
    · rw [Nat.add_assoc, Nat.add_comm 1]
      exact hstop

/-- At one address there is one string. -/
theorem IsStr.unique (h : IsStr m a s) (h' : IsStr m a t) : s = t := by
  induction s generalizing a t with
  | nil =>
    cases t with
    | nil => rfl
    | cons d t => exact absurd (h'.2.1.symm.trans h) h'.1
  | cons c s ih =>
    cases t with
    | nil => exact absurd (h.2.1.symm.trans h') h.1
    | cons d t => rw [← h.2.1, ← h'.2.1, ih h.2.2 h'.2.2]

/-- A string depends on its bytes and on the one behind them. -/
theorem IsStr.congr (h : IsStr m a s) (heq : ∀ x, a ≤ x → x ≤ a + s.length → m' x = m x) :
    IsStr m' a s := by
  induction s generalizing a with
  | nil => exact (heq a (Nat.le_refl a) (Nat.le_refl a)).trans h
  | cons c s ih =>
    obtain ⟨hc, hm, hs⟩ := h
    rw [List.length_cons] at heq
    refine ⟨hc, (heq a (by omega) (by omega)).trans hm, ih hs fun x h₁ h₂ => ?_⟩
    exact heq x (by omega) (by omega)

/-! ### Writing bytes -/

@[simp] theorem storeBytes_nil (m : Mem) (a : Nat) : storeBytes m a [] = m := by
  funext x
  simp [storeBytes]

/-- Bytes outside of those that are written. -/
theorem storeBytes_outside (h : x < a ∨ a + s.length ≤ x) : storeBytes m a s x = m x := by
  unfold storeBytes
  rcases h with h | h
  · rw [if_pos h]
  · rw [if_neg (by omega), List.getElem?_eq_none (by omega)]
    rfl

/-- A byte that is written. -/
theorem storeBytes_inside {i : Nat} (hi : i < s.length) :
    s[i]? = some (storeBytes m a s (a + i)) := by
  unfold storeBytes
  rw [if_neg (by omega), Nat.add_sub_cancel_left, List.getElem?_eq_getElem hi]
  rfl

/-- The first byte of a list is written first. -/
theorem storeBytes_cons (m : Mem) (a : Nat) (c : BitVec 8) (s : List (BitVec 8)) :
    storeBytes m a (c :: s) = storeBytes (store8 m a c) (a + 1) s := by
  funext x
  unfold storeBytes
  by_cases hlt : x < a
  · rw [if_pos hlt, if_pos (by omega), store8_apart _ _ (by omega)]
  · by_cases heq : x = a
    · -- The first byte, which the other ones do not overwrite.
      subst heq
      rw [if_neg hlt, if_pos (by omega), Nat.sub_self, store8_same]
      rfl
    · have hsub : x - a = (x - (a + 1)) + 1 := by omega
      rw [if_neg hlt, if_neg (by omega), hsub, List.getElem?_cons_succ, store8_apart _ _ heq]

/-- One list of bytes behind the other. -/
theorem storeBytes_append (m : Mem) (a : Nat) (s t : List (BitVec 8)) :
    storeBytes m a (s ++ t) = storeBytes (storeBytes m a s) (a + s.length) t := by
  induction s generalizing m a with
  | nil => rw [List.nil_append, storeBytes_nil, List.length_nil, Nat.add_zero]
  | cons c s ih =>
    rw [List.cons_append, storeBytes_cons, storeBytes_cons, ih, List.length_cons, Nat.add_assoc,
      Nat.add_comm 1]

/-- One more byte behind a list. -/
theorem storeBytes_concat (m : Mem) (a : Nat) (s : List (BitVec 8)) (c : BitVec 8) :
    storeBytes m a (s ++ [c]) = store8 (storeBytes m a s) (a + s.length) c := by
  rw [storeBytes_append, storeBytes_cons, storeBytes_nil]

/-- A store outside of a list of bytes can come first. -/
theorem store8_storeBytes (h : x < a ∨ a + s.length ≤ x) :
    store8 (storeBytes m a s) x v = storeBytes (store8 m x v) a s := by
  funext y
  by_cases hy : y = x
  · subst hy
    rw [storeBytes_outside h, store8_same, store8_same]
  · unfold storeBytes
    rw [store8_apart _ _ hy, store8_apart _ _ hy]

/-- Bytes that were written with a zero byte behind them are a string. -/
theorem isStr_storeBytes (m : Mem) (a : Nat) (hne : ∀ c ∈ s, c ≠ 0#8) :
    IsStr (store8 (storeBytes m a s) (a + s.length) 0#8) a s := by
  refine IsStr.intro (fun i hi => ?_) hne ?_
  · rw [storeBytes_inside (m := m) (a := a) hi, store8_apart _ _ (by omega)]
  · exact store8_same _ _ _

end ByteMem
