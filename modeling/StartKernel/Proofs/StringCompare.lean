import StartKernel.Tools.KlibString

/-!
# `StartKernel.Proofs.StringCompare`: `kernel_strncmp`

The loop of `kernel_strncmp` ends at a zero byte, at a difference or after `size` characters, and
the result is computed from the characters that are reached. After `size` characters these are the
ones behind those that count.

* `strncmpLoop_spec`: the characters that are reached.
* `kernelStrncmp_iff`: the result is right exactly when the strings do not differ first at `size`.
-/

set_option autoImplicit false

namespace StartKernel

open ByteMem

/-- The strings agree on their first `size` characters, as far as both go. -/
def AgreeUpTo (s t : List (BitVec 8)) (size : Nat) : Prop :=
  s.take (min size (min s.length t.length)) = t.take (min size (min s.length t.length))

/-- The strings agree on their first `size` characters, both go on, and the next characters
differ. -/
def DifferAt (s t : List (BitVec 8)) (size : Nat) : Prop :=
  size < s.length ∧ size < t.length ∧ s.take size = t.take size ∧ s[size]? ≠ t[size]?

variable {m : Mem} {a b n size : Nat} {s t : List (BitVec 8)} {c d : BitVec 8}

/-- Only the first `size` characters count. -/
theorem agreeUpTo_take : AgreeUpTo (s.take size) (t.take size) size ↔ AgreeUpTo s t size := by
  unfold AgreeUpTo
  rw [List.length_take, List.length_take, List.take_take, List.take_take]
  have hmin : min (min size (min (min size s.length) (min size t.length))) size
      = min size (min s.length t.length) := by omega
  rw [hmin]

/-- Strings that differ first at `size` agree in front of it. -/
theorem DifferAt.agree (h : DifferAt s t size) : AgreeUpTo s t size := by
  obtain ⟨hs, ht, heq, -⟩ := h
  have hmin : min size (min s.length t.length) = size := by omega
  unfold AgreeUpTo
  rw [hmin]
  exact heq

/-- One character that both strings have. -/
theorem agreeUpTo_cons : AgreeUpTo (c :: s) (c :: t) (size + 1) ↔ AgreeUpTo s t size := by
  have hmin : min (size + 1) (min (c :: s).length (c :: t).length)
      = min size (min s.length t.length) + 1 := by
    rw [List.length_cons, List.length_cons]
    omega
  unfold AgreeUpTo
  rw [hmin, List.take_succ_cons, List.take_succ_cons, List.cons_inj_right]

theorem differAt_cons : DifferAt (c :: s) (c :: t) (size + 1) ↔ DifferAt s t size := by
  unfold DifferAt
  rw [List.length_cons, List.length_cons, List.take_succ_cons, List.take_succ_cons,
    List.cons_inj_right, List.getElem?_cons_succ, List.getElem?_cons_succ, Nat.succ_lt_succ_iff,
    Nat.succ_lt_succ_iff]

/-- Strings whose first characters differ. -/
theorem agree_and_not_differ_of_ne (hne : c ≠ d) :
    ¬ (AgreeUpTo (c :: s) (d :: t) size ∧ ¬ DifferAt (c :: s) (d :: t) size) := by
  rintro ⟨hagree, hnot⟩
  cases size with
  | zero => exact hnot ⟨Nat.succ_pos _, Nat.succ_pos _, rfl, fun he => hne (Option.some.inj he)⟩
  | succ size =>
    have hmin : min (size + 1) (min (c :: s).length (d :: t).length)
        = min size (min s.length t.length) + 1 := by
      rw [List.length_cons, List.length_cons]
      omega
    unfold AgreeUpTo at hagree
    rw [hmin, List.take_succ_cons, List.take_succ_cons] at hagree
    exact hne (List.cons.inj hagree).1

/-- The loop of `kernel_strncmp` ends, and the characters that it reaches decide whether the strings
agree, except when they differ first at `size`. -/
theorem strncmpLoop_spec (hs : IsStr m a s) (ht : IsStr m b t) (hsize : size < 2 ^ 31)
    (hn : s.length < n) : ∃ a' b', strncmpLoop m a b size n = some (a', b') ∧
      ((m a' = 0#8 ∨ m b' = 0#8 ∨ m a' = m b') ↔ AgreeUpTo s t size ∧ ¬ DifferAt s t size) := by
  induction s generalizing a b t size n with
  | nil =>
    -- The first string has ended.
    obtain ⟨n, rfl⟩ := Nat.exists_eq_succ_of_ne_zero (by omega : n ≠ 0)
    unfold strncmpLoop
    rw [if_neg (fun hgo => hgo.1 hs)]
    refine ⟨a, b, rfl, iff_of_true (Or.inl hs) ⟨?_, fun h => absurd h.1 (Nat.not_lt_zero _)⟩⟩
    unfold AgreeUpTo
    simp
  | cons c s ih =>
    obtain ⟨hc, hma, hrest⟩ := hs
    rw [List.length_cons] at hn
    obtain ⟨n, rfl⟩ := Nat.exists_eq_succ_of_ne_zero (by omega : n ≠ 0)
    unfold strncmpLoop
    cases t with
    | nil =>
      -- The second string has ended.
      rw [if_neg (fun hgo => hgo.2.1 ht)]
      refine ⟨a, b, rfl, iff_of_true (Or.inr (Or.inl ht)) ⟨?_, fun h => absurd h.2.1
        (Nat.not_lt_zero _)⟩⟩
      unfold AgreeUpTo
      simp
    | cons d t =>
      obtain ⟨hd, hmb, hrest'⟩ := ht
      have hnz : ¬ (m a = 0#8 ∨ m b = 0#8) := by
        rw [hma, hmb]
        exact fun h => h.elim hc hd
      by_cases hcd : c = d
      · subst hcd
        have hsame : m a = m b := hma.trans hmb.symm
        cases size with
        | zero =>
          -- No character is left to compare, and the next ones are the same.
          rw [if_neg (by simp)]
          refine ⟨a, b, rfl, iff_of_true (Or.inr (Or.inr hsame)) ⟨?_, fun h => h.2.2.2 rfl⟩⟩
          unfold AgreeUpTo
          simp
        | succ size =>
          rw [if_pos ⟨fun h => hnz (Or.inl h), fun h => hnz (Or.inr h), hsame, by omega⟩,
            toInt_pred hsize,
            agreeUpTo_cons, differAt_cons]
          exact ih hrest hrest' (by omega) (Nat.lt_of_succ_lt_succ hn)
      · -- The characters differ, which counts even when `size` is used up.
        have hdiff : m a ≠ m b := by
          rw [hma, hmb]
          exact hcd
        rw [if_neg (fun hgo => hdiff hgo.2.2.1)]
        refine ⟨a, b, rfl, iff_of_false (fun h => ?_) (agree_and_not_differ_of_ne hcd)⟩
        rcases h with h | h | h
        · exact hnz (Or.inl h)
        · exact hnz (Or.inr h)
        · exact hdiff h

/-- `kernel_strncmp` returns 0 or 1, and 0 exactly for strings whose first `size` characters agree
as far as both go, if and only if the strings do not differ first at `size`. The characters from
`size` on do not count then. -/
theorem kernelStrncmp_iff (ha : a ≠ 0) (hb : b ≠ 0) (hs : IsStr m a s) (ht : IsStr m b t)
    (hfits : a + s.length < 2 ^ 32) (hsize : size < 2 ^ 31) :
    ∃ r, kernelStrncmp m a b size = some r ∧ (r = 0 ∨ r = 1) ∧
      ((r = 0 ↔ AgreeUpTo (s.take size) (t.take size) size) ↔ ¬ DifferAt s t size) := by
  obtain ⟨a', b', he, hiff⟩ := strncmpLoop_spec hs ht hsize
    (n := addrCount) (by unfold addrCount; omega)
  refine ⟨if m a' = 0#8 ∨ m b' = 0#8 ∨ m a' = m b' then 0 else 1, ?_, ?_, ?_⟩
  · unfold kernelStrncmp
    rw [if_neg (by simp [ha, hb]), he]
    rfl
  · split
    · exact Or.inl rfl
    · exact Or.inr rfl
  · rw [agreeUpTo_take]
    have hzero : (if m a' = 0#8 ∨ m b' = 0#8 ∨ m a' = m b' then (0 : Int) else 1) = 0 ↔
        AgreeUpTo s t size ∧ ¬ DifferAt s t size := by
      rw [← hiff]
      split
      · rename_i hreached
        exact iff_of_true rfl hreached
      · rename_i hreached
        exact iff_of_false (by decide) hreached
    rw [hzero]
    constructor
    · exact fun hright hdiffer => (hright.mpr hdiffer.agree).2 hdiffer
    · exact fun hnot => and_iff_left hnot

/-- The strings "ab" at the address 100 and "ac" at the address 200. -/
def abAndAc : Mem := fun x =>
  if x = 100 ∨ x = 200 then char 'a' else if x = 101 then char 'b' else if x = 201 then char 'c'
  else 0#8

theorem isStr_ab : IsStr abAndAc 100 [char 'a', char 'b'] := by decide

theorem isStr_ac : IsStr abAndAc 200 [char 'a', char 'c'] := by decide

/-- With `size` 2, "ab" and "ac" are told apart. -/
theorem kernelStrncmp_iff_two : ∃ r, kernelStrncmp abAndAc 100 200 (2 : Nat) = some r ∧
    (r = 0 ∨ r = 1) ∧
    ((r = 0 ↔ AgreeUpTo ([char 'a', char 'b'].take 2) ([char 'a', char 'c'].take 2) 2) ↔
      ¬ DifferAt [char 'a', char 'b'] [char 'a', char 'c'] 2) :=
  kernelStrncmp_iff (by decide) (by decide) isStr_ab isStr_ac (by decide) (by decide)

/-- With `size` 1, "ab" and "ac" agree, but the result is 1. -/
theorem not_kernelStrncmp_one : kernelStrncmp abAndAc 100 200 1 = some 1 ∧
    IsStr abAndAc 100 [char 'a', char 'b'] ∧ IsStr abAndAc 200 [char 'a', char 'c'] ∧
    AgreeUpTo [char 'a', char 'b'] [char 'a', char 'c'] 1 :=
  ⟨by decide, isStr_ab, isStr_ac, rfl⟩

end StartKernel
