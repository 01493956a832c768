import StartKernel.Tools.KlibString

/-!
# `StartKernel.Proofs.StringCopy`: `kernel_strcpy` and `kernel_strncpy`

`kernel_strcpy` stops at a zero byte of the source, but also at one that is still in the destination
from before. `kernel_strncpy` counts `size` down once more when its loop ends, so it tells the two
ends of the loop apart wrongly.

* `strcpyLoop_spec`, `strncpyLoop_spec`: what the loops have written when they end.
* `kernelStrcpy_iff`: the copy is right exactly when the bytes that it overwrites were not zero.
* `kernelStrncpy_iff`: the copy is right exactly when two bytes of the destination are left over.
-/

set_option autoImplicit false

namespace StartKernel

open ByteMem

variable {m : Mem} {dest src n : Nat} {s : List (BitVec 8)}

/-! ### `kernel_strcpy` -/

/-- The loop of `kernel_strcpy` copies up to the first zero byte of the old destination. -/
theorem strcpyLoop_spec (hs : IsStr m src s)
    (hapart : dest + s.length < src ∨ src + s.length < dest) (hn : s.length < n) :
    ∃ k ≤ s.length, (∀ i < k, m (dest + i) ≠ 0#8) ∧ (k < s.length → m (dest + k) = 0#8) ∧
      strcpyLoop m dest src n = some (storeBytes m dest (s.take k), dest + k) := by
  induction s generalizing m dest src n with
  | nil =>
    -- The source has ended.
    refine ⟨0, Nat.le_refl 0, fun i hi => absurd hi (Nat.not_lt_zero i), fun h => absurd h
      (Nat.not_lt_zero 0), ?_⟩
    obtain ⟨n, rfl⟩ := Nat.exists_eq_succ_of_ne_zero (by omega : n ≠ 0)
    unfold strcpyLoop
    rw [if_neg (fun hgo => hgo.2 hs), List.take_nil, storeBytes_nil]
    rfl
  | cons c s ih =>
    obtain ⟨hc, hm, hrest⟩ := hs
    rw [List.length_cons] at hapart hn ⊢
    obtain ⟨n, rfl⟩ := Nat.exists_eq_succ_of_ne_zero (by omega : n ≠ 0)
    unfold strcpyLoop
    by_cases hstop : m dest = 0#8
    · -- The destination holds a zero byte here, so nothing more is copied.
      rw [if_neg (fun hgo => hgo.1 hstop)]
      exact ⟨0, Nat.zero_le _, fun i hi => absurd hi (Nat.not_lt_zero i), fun _ => hstop,
        by rw [List.take_zero, storeBytes_nil]; rfl⟩
    · -- One byte is copied. The rest of the source is as before.
      rw [if_pos ⟨hstop, hm ▸ hc⟩]
      have hsrc : IsStr (store8 m dest (m src)) (src + 1) s :=
        hrest.congr fun x h₁ h₂ => store8_apart m _ (by omega)
      have hnext : dest + 1 + s.length < src + 1 ∨ src + 1 + s.length < dest + 1 := by omega
      obtain ⟨k, hk, hold, hend, he⟩ := ih hsrc hnext (Nat.lt_of_succ_lt_succ hn)
      -- The store in front does not touch the old bytes behind it.
      have hsame : ∀ i, store8 m dest (m src) (dest + 1 + i) = m (dest + (i + 1)) := by
        intro i
        rw [store8_apart m _ (by omega), Nat.add_assoc, Nat.add_comm 1]
      refine ⟨k + 1, Nat.succ_le_succ hk, fun i hi => ?_, fun hlt => ?_, ?_⟩
      · cases i with
        | zero => exact hstop
        | succ i => exact hsame i ▸ hold i (Nat.lt_of_succ_lt_succ hi)
      · exact hsame k ▸ hend (Nat.lt_of_succ_lt_succ hlt)
      · rw [he, List.take_succ_cons, storeBytes_cons, hm, Nat.add_assoc, Nat.add_comm 1]

/-- What `kernel_strcpy` leaves: a part of the source as a string, with nothing else changed. -/
theorem kernelStrcpy_spec (hdest : dest ≠ 0) (hsrc : src ≠ 0) (hs : IsStr m src s)
    (hfits : src + s.length < 2 ^ 32)
    (hapart : dest + s.length < src ∨ src + s.length < dest) :
    ∃ k ≤ s.length, (∀ i < k, m (dest + i) ≠ 0#8) ∧ (k < s.length → m (dest + k) = 0#8) ∧
      ∃ m', kernelStrcpy m dest src = some m' ∧ IsStr m' dest (s.take k) ∧
        ∀ x, x < dest ∨ dest + k < x → m' x = m x := by
  obtain ⟨k, hk, hold, hend, he⟩ := strcpyLoop_spec hs hapart
    (n := addrCount) (by unfold addrCount; omega)
  have hlen : (s.take k).length = k := List.length_take_of_le hk
  refine ⟨k, hk, hold, hend, store8 (storeBytes m dest (s.take k)) (dest + k) 0#8, ?_, ?_,
    fun x hx => ?_⟩
  · unfold kernelStrcpy
    rw [if_neg (by simp [hdest, hsrc]), he]
    rfl
  · have hstr := isStr_storeBytes m dest (fun c hc => hs.nonzero c (List.mem_of_mem_take hc))
      (s := s.take k)
    rwa [hlen] at hstr
  · rw [store8_apart _ _ (by omega), storeBytes_outside (by omega)]

/-- `kernel_strcpy`, for a source and a destination that do not overlap: afterwards the destination
is the source string and nothing beyond its terminator has changed, if and only if the old bytes of
the destination under the string were not zero. -/
theorem kernelStrcpy_iff (hdest : dest ≠ 0) (hsrc : src ≠ 0) (hs : IsStr m src s)
    (hfits : src + s.length < 2 ^ 32)
    (hapart : dest + s.length < src ∨ src + s.length < dest) :
    ∃ m', kernelStrcpy m dest src = some m' ∧
      ((IsStr m' dest s ∧ ∀ x, x < dest ∨ dest + s.length < x → m' x = m x) ↔
        ∀ i < s.length, m (dest + i) ≠ 0#8) := by
  obtain ⟨k, hk, hold, hend, m', he, hstr, hkeep⟩ :=
    kernelStrcpy_spec hdest hsrc hs hfits hapart
  refine ⟨m', he, fun hright => ?_, fun hall => ?_⟩
  · -- The copy is the whole string, so the loop did not stop before its end.
    have hwhole : s.take k = s := hstr.unique hright.1
    have hlen : k = s.length := by
      rw [← List.length_take_of_le hk, hwhole]
    exact hlen ▸ hold
  · -- No old byte was zero, so nothing but the end of the source stopped the loop.
    have hlen : k = s.length := by
      by_contra hne
      exact hall k (by omega) (hend (by omega))
    subst hlen
    rw [List.take_length] at hstr
    exact ⟨hstr, hkeep⟩

/-- The string "ab" at the address 100, in a memory that is `v` everywhere else. -/
def twoChars (v : BitVec 8) : Mem := fun x =>
  if x = 100 then char 'a' else if x = 101 then char 'b' else if x = 102 then 0#8 else v

theorem isStr_twoChars (v : BitVec 8) : IsStr (twoChars v) 100 [char 'a', char 'b'] :=
  ⟨by decide, rfl, by decide, rfl, rfl⟩

/-- The copy of "ab" over bytes that are not zero. -/
theorem kernelStrcpy_iff_stale : ∃ m', kernelStrcpy (twoChars 0xAA#8) 200 100 = some m' ∧
    ((IsStr m' 200 [char 'a', char 'b'] ∧
        ∀ x, x < 200 ∨ 200 + 2 < x → m' x = twoChars 0xAA#8 x) ↔
      ∀ i < 2, twoChars 0xAA#8 (200 + i) ≠ 0#8) :=
  kernelStrcpy_iff (by decide) (by decide) (isStr_twoChars 0xAA#8) (by decide) (by decide)

/-- Into a destination of zeros, "ab" is copied as the empty string. -/
theorem not_kernelStrcpy_zeros : ∃ m', kernelStrcpy (twoChars 0#8) 200 100 = some m' ∧
    IsStr (twoChars 0#8) 100 [char 'a', char 'b'] ∧ ¬ IsStr m' 200 [char 'a', char 'b'] := by
  refine ⟨_, rfl, isStr_twoChars 0#8, fun hstr => ?_⟩
  exact absurd hstr.2.1 (by decide)

/-! ### `kernel_strncpy` -/

variable {w : LogMem} {size : Nat}

/-- The loop of `kernel_strncpy`, when it does not overwrite the source in front of itself. It
copies `k` bytes, up to the end of the source or of `size`. -/
theorem strncpyLoop_spec (hs : IsStr w.mem src s) (hahead : dest ≤ src ∨ src + s.length < dest)
    (hsize : size < 2 ^ 31) (hn : size < n) {k : Nat} (hk : k = min s.length size) :
    ∃ w', strncpyLoop w dest src size n = some (w', dest + k, (size : Int) - k - 1) ∧
      w'.mem = storeBytes w.mem dest (s.take k) ∧
      ∀ x, x ∈ w'.written ↔ x ∈ w.written ∨ (dest ≤ x ∧ x < dest + k) := by
  induction s generalizing w dest src size n k with
  | nil =>
    obtain ⟨n, rfl⟩ := Nat.exists_eq_succ_of_ne_zero (by omega : n ≠ 0)
    obtain rfl : k = 0 := by rw [hk]; exact Nat.zero_min size
    unfold strncpyLoop
    -- The source has ended, and `size` is counted down all the same.
    rw [if_neg (fun hgo => hgo.2 hs), toInt_of_fits (by omega) (by omega)]
    exact ⟨w, by simp, by simp, fun x => (or_iff_left (by omega)).symm⟩
  | cons c s ih =>
    obtain ⟨hc, hm, hrest⟩ := hs
    rw [List.length_cons] at hahead hk
    obtain ⟨n, rfl⟩ := Nat.exists_eq_succ_of_ne_zero (by omega : n ≠ 0)
    unfold strncpyLoop
    cases size with
    | zero =>
      -- `size` is used up, and counted down to -1.
      obtain rfl : k = 0 := by rw [hk]; exact Nat.min_zero _
      rw [if_neg (by omega), toInt_of_fits (by omega) (by omega)]
      exact ⟨w, by simp, by simp, fun x => (or_iff_left (by omega)).symm⟩
    | succ size =>
      obtain ⟨k, rfl⟩ : ∃ k', k = k' + 1 := ⟨min s.length size, by omega⟩
      rw [if_pos ⟨by omega, hm ▸ hc⟩, toInt_pred hsize]
      have hsrc : IsStr (w.store8 dest (w.mem src)).mem (src + 1) s :=
        hrest.congr fun x h₁ h₂ => store8_apart w.mem _ (by omega)
      have hnext : dest + 1 ≤ src + 1 ∨ src + 1 + s.length < dest + 1 := by omega
      have hk' : k = min s.length size := by omega
      obtain ⟨w', he, hmem, hlog⟩ := ih hsrc hnext (by omega) (Nat.lt_of_succ_lt_succ hn) hk'
      refine ⟨w', ?_, ?_, fun x => ?_⟩
      · rw [he, Nat.add_assoc, Nat.add_comm 1]
        have hleft : (size : Int) - k - 1
            = ((size + 1 : Nat) : Int) - ((k + 1 : Nat) : Int) - 1 := by omega
        rw [hleft]
      · rw [hmem, List.take_succ_cons, storeBytes_cons, ← hm]
        rfl
      · rw [hlog]
        show (x ∈ dest :: w.written ∨ _) ↔ _
        have hrange : (dest ≤ x ∧ x < dest + (k + 1)) ↔
            x = dest ∨ (dest + 1 ≤ x ∧ x < dest + 1 + k) := by omega
        rw [List.mem_cons, hrange, or_assoc, or_left_comm]

/-- The loop of `kernel_strncpy`, when it overwrites the source in front of itself: it does not see
the end of the source, and `size` is used up. -/
theorem strncpyLoop_overlap (hlt : src < dest)
    (hne : ∀ x, src ≤ x → x < dest → w.mem x ≠ 0#8) (hsize : size < 2 ^ 31) (hn : size < n) :
    ∃ w', strncpyLoop w dest src size n = some (w', dest + size, -1) := by
  induction size generalizing w dest src n with
  | zero =>
    obtain ⟨n, rfl⟩ := Nat.exists_eq_succ_of_ne_zero (by omega : n ≠ 0)
    unfold strncpyLoop
    rw [if_neg (by omega), toInt_of_fits (by omega) (by omega)]
    exact ⟨w, by simp⟩
  | succ size ih =>
    obtain ⟨n, rfl⟩ := Nat.exists_eq_succ_of_ne_zero (by omega : n ≠ 0)
    have hsrc : w.mem src ≠ 0#8 := hne src (Nat.le_refl src) hlt
    unfold strncpyLoop
    rw [if_pos ⟨by omega, hsrc⟩, toInt_pred hsize]
    have hnext : ∀ x, src + 1 ≤ x → x < dest + 1 →
        (w.store8 dest (w.mem src)).mem x ≠ 0#8 := by
      intro x h₁ h₂
      show store8 w.mem dest (w.mem src) x ≠ 0#8
      by_cases hx : x = dest
      · -- The byte that was written is a byte of the source.
        rw [hx, store8_same]
        exact hsrc
      · rw [store8_apart _ _ hx]
        exact hne x (by omega) (by omega)
    obtain ⟨w', he⟩ := ih (by omega : src + 1 < dest + 1) hnext (by omega)
      (Nat.lt_of_succ_lt_succ hn)
    refine ⟨w', he.trans ?_⟩
    rw [Nat.add_assoc, Nat.add_comm 1]

/-- A bounded copy of `s`, as the addresses written and the memory afterwards say: only bytes of the
destination were written, and it holds the source, or as much of it as there is room for. -/
structure BoundedCopy (w : LogMem) (dest size : Nat) (s : List (BitVec 8)) : Prop where
  inside : ∀ x ∈ w.written, dest ≤ x ∧ x < dest + size
  str : IsStr w.mem dest (if s.length < size then s else s.take (size - 1))

/-- A copy that writes behind the destination is not bounded. -/
theorem not_boundedCopy_of_behind {x : Nat} {v : BitVec 8} (hx : dest + size ≤ x ∨ x < dest) :
    ¬ BoundedCopy (w.store8 x v) dest size s := by
  intro h
  have hin := h.inside x List.mem_cons_self
  omega

/-- `kernel_strncpy` behind its loop. -/
theorem kernelStrncpy_eq (hdest : dest ≠ 0) (hsrc : src ≠ 0) (h₁ : 1 ≤ size) {w' : LogMem} {d : Nat}
    {left : Int} (he : strncpyLoop w dest src size addrCount = some (w', d, left)) :
    kernelStrncpy w dest src size
      = some (if left = 0 then w'.store8 (d - 1) 0#8 else w'.store8 d 0#8) := by
  unfold kernelStrncpy
  rw [if_neg (by simp [hdest, hsrc]; omega), he]
  rfl

/-- `kernel_strncpy` is a bounded copy exactly when the string leaves two bytes of the destination
over, and the destination does not begin inside the string or at its terminator, behind its first
byte. -/
theorem kernelStrncpy_iff (hdest : dest ≠ 0) (hsrc : src ≠ 0) (hs : IsStr m src s) (h₁ : 1 ≤ size)
    (h₂ : size < 2 ^ 31) :
    ∃ w', kernelStrncpy ⟨m, []⟩ dest src size = some w' ∧
      (BoundedCopy w' dest size s ↔
        s.length + 2 ≤ size ∧ ¬ (src < dest ∧ dest ≤ src + s.length)) := by
  have hfuel : size < addrCount := by unfold addrCount; omega
  by_cases hover : src < dest ∧ dest ≤ src + s.length
  · -- The loop runs into its own copy, and the terminator comes behind the destination.
    have hne : ∀ x, src ≤ x → x < dest → m x ≠ 0#8 := by
      intro x hx₁ hx₂
      have hbyte := hs.ne_zero (i := x - src) (by omega)
      rwa [show src + (x - src) = x by omega] at hbyte
    obtain ⟨w', he⟩ := strncpyLoop_overlap (w := ⟨m, []⟩) hover.1 hne h₂ hfuel
    exact ⟨_, kernelStrncpy_eq hdest hsrc h₁ he,
      iff_of_false (not_boundedCopy_of_behind (Or.inl (Nat.le_refl _))) fun h => h.2 hover⟩
  · have hahead : dest ≤ src ∨ src + s.length < dest := by omega
    obtain ⟨w', he, hmem, hlog⟩ := strncpyLoop_spec (w := ⟨m, []⟩) hs hahead h₂ hfuel rfl
    refine ⟨_, kernelStrncpy_eq hdest hsrc h₁ he, ?_⟩
    rcases Nat.lt_trichotomy (s.length + 1) size with hshort | hexact | hlong
    · -- The terminator follows the whole string.
      have hmin : min s.length size = s.length := by omega
      rw [hmin] at hmem hlog ⊢
      rw [List.take_length] at hmem
      rw [if_neg (by omega)]
      refine iff_of_true ⟨fun x hx => ?_, ?_⟩ ⟨hshort, hover⟩
      · rcases List.mem_cons.mp hx with rfl | hx
        · omega
        · rcases (hlog x).mp hx with hx | hx
          · exact absurd hx List.not_mem_nil
          · omega
      · rw [if_pos (by omega)]
        show IsStr (store8 w'.mem (dest + s.length) 0#8) dest s
        rw [hmem]
        exact isStr_storeBytes m dest hs.nonzero
    · -- The string fits exactly: the terminator replaces its last byte.
      have hmin : min s.length size = s.length := by omega
      rw [hmin, if_pos (by omega)]
      refine iff_of_false (fun h => ?_) (by omega)
      by_cases hempty : s.length = 0
      · exact not_boundedCopy_of_behind (Or.inr (by omega)) h
      · have hstr := h.str
        rw [if_pos (by omega)] at hstr
        have hlast := hstr.ne_zero (i := s.length - 1) (by omega)
        rw [show dest + (s.length - 1) = dest + s.length - 1 by omega] at hlast
        exact hlast (store8_same _ _ _)
    · -- `size` bytes are copied, and the terminator comes behind the destination.
      have hmin : min s.length size = size := by omega
      rw [hmin, if_neg (by omega)]
      exact iff_of_false (not_boundedCopy_of_behind (Or.inl (Nat.le_refl _))) (by omega)

/-- The string "ab" has room in a destination of four bytes. -/
theorem kernelStrncpy_iff_four : ∃ w',
    kernelStrncpy ⟨twoChars 0#8, []⟩ 200 100 (4 : Nat) = some w' ∧
    (BoundedCopy w' 200 4 [char 'a', char 'b'] ↔ 2 + 2 ≤ 4 ∧ ¬ (100 < 200 ∧ 200 ≤ 100 + 2)) :=
  kernelStrncpy_iff (by decide) (by decide) (isStr_twoChars 0#8) (by decide) (by decide)

/-- Into a destination of three bytes, "ab" is copied as "a". -/
theorem not_kernelStrncpy_three : ∃ w',
    kernelStrncpy ⟨twoChars 0#8, []⟩ 200 100 3 = some w' ∧
      IsStr (twoChars 0#8) 100 [char 'a', char 'b'] ∧
      ¬ IsStr w'.mem 200 [char 'a', char 'b'] ∧ ¬ BoundedCopy w' 200 3 [char 'a', char 'b'] := by
  refine ⟨_, rfl, isStr_twoChars 0#8, by decide, fun h => ?_⟩
  exact absurd h.str (by decide)

end StartKernel
