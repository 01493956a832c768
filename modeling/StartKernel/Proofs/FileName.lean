import StartKernel.Tools.KlibString

/-!
# `StartKernel.Proofs.FileName`: `get_file_name`

The function looks for the end of the path and then, from there, for the last separator. The second
loop reads a byte before it compares its address with the first one of the path. So it reads the
byte in front of a path without a separator. This byte does not change the result.

* `fileNameEnd_spec`, `fileNameStart_back`: the two loops, with the addresses that they read.
* `getFileName_separator`, `getFileName_no_separator`: the result with and without a separator.
* `getFileName_name`: the result is the name of the file, for every path that is not at the address
  0.
* `getFileName_iff`: the function stays inside the path exactly when the path has a separator.
-/

set_option autoImplicit false

namespace StartKernel

open ByteMem

variable {m : Mem} {a b k n r x name : Nat} {s t d : List (BitVec 8)} {c : BitVec 8}
  {reads reads' : List Nat}

/-- The characters that separate the parts of a path. -/
def IsSeparator (c : BitVec 8) : Prop := c = char '\\' ∨ c = char '/'

instance (c : BitVec 8) : Decidable (IsSeparator c) :=
  inferInstanceAs (Decidable (c = char '\\' ∨ c = char '/'))

/-- `t` is the name of the file in the path `s`: what follows the last separator, or the whole path
when there is none. -/
def IsFileName (s t : List (BitVec 8)) : Prop :=
  (∀ c ∈ t, ¬ IsSeparator c) ∧ (t = s ∨ ∃ d c, IsSeparator c ∧ s = d ++ c :: t)

/-- The result is the address of the name of the file in the path `s` at `a`. -/
def PointsToName (m : Mem) (a : Nat) (s : List (BitVec 8)) (r : Nat) : Prop :=
  ∃ t, IsFileName s t ∧ r + t.length = a + s.length ∧ IsStr m r t

/-- The function returns, it reads nothing outside of the path and its zero byte, and its result is
the name of the file. -/
def FindsName (m : Mem) (a : Nat) (s : List (BitVec 8)) : Prop :=
  ∃ r reads, getFileName m a = some (r, reads) ∧ (∀ x ∈ reads, a ≤ x ∧ x ≤ a + s.length) ∧
    PointsToName m a s r

/-- Every path has a name. -/
theorem exists_isFileName (s : List (BitVec 8)) : ∃ t, IsFileName s t := by
  induction s with
  | nil => exact ⟨[], by simp, Or.inl rfl⟩
  | cons c s ih =>
    obtain ⟨t, hno, rfl | ⟨d, c', hc', rfl⟩⟩ := ih
    · -- The rest has no separator, so `c` decides.
      by_cases hc : IsSeparator c
      · exact ⟨t, hno, Or.inr ⟨[], c, hc, rfl⟩⟩
      · refine ⟨c :: t, fun e he => ?_, Or.inl rfl⟩
        rcases List.mem_cons.mp he with rfl | he
        · exact hc
        · exact hno e he
    · exact ⟨t, hno, Or.inr ⟨c :: d, c', hc', rfl⟩⟩

/-- The zero byte is no separator. -/
theorem not_separator_zero : ¬ IsSeparator 0#8 := by decide

/-- Between the first byte and the zero byte of a string without separators there is none. -/
theorem not_separator_of_isStr (h : IsStr m b t) (hno : ∀ c ∈ t, ¬ IsSeparator c) (h₁ : b ≤ x)
    (h₂ : x ≤ b + t.length) : ¬ IsSeparator (m x) := by
  rcases h.mem_or_stop h₁ h₂ with hmem | hzero
  · exact hno _ hmem
  · rw [hzero]
    exact not_separator_zero

/-! ### The loops -/

/-- The first loop ends at the zero byte. -/
theorem fileNameEnd_spec (hs : IsStr m a s) (hn : s.length < n) : fileNameEnd m a reads n =
    some (a + s.length, (List.range' a (s.length + 1)).reverse ++ reads) := by
  induction s generalizing a reads n with
  | nil =>
    obtain ⟨n, rfl⟩ := Nat.exists_eq_succ_of_ne_zero (by omega : n ≠ 0)
    have hzero : m a = 0#8 := hs
    rw [fileNameEnd, if_neg (not_not.mpr hzero)]
    rfl
  | cons c s ih =>
    obtain ⟨hc, hm, hrest⟩ := hs
    rw [List.length_cons] at hn ⊢
    obtain ⟨n, rfl⟩ := Nat.exists_eq_succ_of_ne_zero (by omega : n ≠ 0)
    rw [fileNameEnd, if_pos (by rw [hm]; exact hc), ih hrest (by omega),
      show List.range' a (s.length + 1 + 1) = a :: List.range' (a + 1) (s.length + 1) from rfl,
      List.reverse_cons, List.append_assoc, Nat.add_assoc, Nat.add_comm 1]
    rfl

/-- One turn of the second loop. -/
theorem fileNameStart_step (hno : ¬ IsSeparator (m x)) (hx : name ≤ x) :
    fileNameStart m name x reads (n + 1)
      = fileNameStart m name (toU32 ((x : Int) - 1)) (x :: reads) n := by
  rw [fileNameStart, if_pos ⟨fun h => hno (Or.inl h), fun h => hno (Or.inr h), hx⟩]

/-- The end of the second loop. -/
theorem fileNameStart_stop (hstop : IsSeparator (m x) ∨ x < name) :
    fileNameStart m name x reads (n + 1) = some (x, x :: reads) := by
  rw [fileNameStart, if_neg]
  rintro ⟨hne, hne', hle⟩
  rcases hstop with (hsep | hsep) | hlt
  · exact hne hsep
  · exact hne' hsep
  · omega

/-- The second loop passes the addresses from `b + k` down to `b`. -/
theorem fileNameStart_back (hname : name ≤ b) (hfits : b + k < 2 ^ 32)
    (hno : ∀ x, b ≤ x → x ≤ b + k → ¬ IsSeparator (m x)) :
    fileNameStart m name (b + k) reads (n + (k + 1))
      = fileNameStart m name (toU32 ((b : Int) - 1)) (List.range' b (k + 1) ++ reads) n := by
  induction k generalizing reads with
  | zero => exact fileNameStart_step (hno b (Nat.le_refl b) (Nat.le_refl b)) hname
  | succ k ih =>
    have hpred : toU32 (((b + (k + 1) : Nat) : Int) - 1) = b + k :=
      toU32_pred (n := b + k) (by omega)
    rw [← Nat.add_assoc n, fileNameStart_step (hno _ (by omega) (by omega)) (by omega), hpred,
      ih (by omega) fun x h₁ h₂ => hno x h₁ (by omega), List.range'_concat (s := b) (n := k + 1),
      List.append_assoc, Nat.one_mul]
    rfl

/-- The second loop reads the byte at which it begins. -/
theorem fileNameStart_reads (h : fileNameStart m name x reads n = some (r, reads')) :
    x ∈ reads' ∧ ∀ y ∈ reads, y ∈ reads' := by
  induction n generalizing x reads with
  | zero => cases h
  | succ n ih =>
    rw [fileNameStart] at h
    split at h
    · obtain ⟨-, hmem⟩ := ih h
      exact ⟨hmem x List.mem_cons_self, fun y hy => hmem y (List.mem_cons_of_mem x hy)⟩
    · cases h
      exact ⟨List.mem_cons_self, fun y hy => List.mem_cons_of_mem _ hy⟩

/-! ### The function -/

/-- The two loops, one after the other. `b` is the address of the name. -/
theorem getFileName_back (hs : IsStr m a s) (hfits : a + s.length < 2 ^ 32) (hb : a ≤ b)
    (hend : b + k = a + s.length) (hn : n + (k + 1) = addrCount)
    (hno : ∀ x, b ≤ x → x ≤ b + k → ¬ IsSeparator (m x)) :
    getFileName m a =
      (fileNameStart m a (toU32 ((b : Int) - 1))
        (List.range' b (k + 1) ++ (List.range' a (s.length + 1)).reverse) n).map
          fun (s, reads) => (toU32 (s + 1), reads) := by
  have hlen : s.length < addrCount := by
    unfold addrCount
    omega
  rw [getFileName, fileNameEnd_spec hs hlen, List.append_nil, Option.bind_some, ← hend, ← hn]
  exact congrArg (Option.map _) (fileNameStart_back hb (by omega) hno)

/-- A path with a separator: the result is the address behind the last one, and only the path was
read. -/
theorem getFileName_separator (hs : IsStr m a (d ++ c :: t)) (hc : IsSeparator c)
    (hno : ∀ c ∈ t, ¬ IsSeparator c) (hfits : a + (d ++ c :: t).length < 2 ^ 32) :
    ∃ reads, getFileName m a = some (a + d.length + 1, reads) ∧
      ∀ x ∈ reads, a ≤ x ∧ x ≤ a + (d ++ c :: t).length := by
  have hlen : (d ++ c :: t).length = d.length + 1 + t.length := by
    rw [List.length_append, List.length_cons]
    omega
  obtain ⟨-, hm, hname⟩ := hs.right
  obtain ⟨n, hn⟩ : ∃ n, n + 1 + (t.length + 1) = addrCount := by
    unfold addrCount
    exact ⟨2 ^ 32 - (t.length + 2), by omega⟩
  have hsucc : toU32 ((a + d.length : Nat) + 1 : Int) = a + d.length + 1 :=
    toU32_natCast (n := a + d.length + 1) (by omega)
  rw [getFileName_back hs hfits (b := a + d.length + 1) (by omega) (by omega) hn fun x =>
    not_separator_of_isStr hname hno, toU32_pred (by omega),
    fileNameStart_stop (Or.inl (by rwa [hm]))]
  refine ⟨_, congrArg some (Prod.ext hsucc rfl), fun x hx => ?_⟩
  simp only [List.mem_cons, List.mem_append, List.mem_range'_1, List.mem_reverse] at hx
  omega

/-- A path without a separator: the result is the path, and the byte in front of it was read,
whatever it is. -/
theorem getFileName_no_separator (hs : IsStr m (a + 1) s) (hno : ∀ c ∈ s, ¬ IsSeparator c)
    (hfits : a + 1 + s.length < 2 ^ 32) : ∃ reads, getFileName m (a + 1) = some (a + 1, reads) ∧
      ∀ x ∈ reads, a ≤ x ∧ x ≤ a + 1 + s.length := by
  obtain ⟨n, hn⟩ : ∃ n, n + 1 + (s.length + 1) = addrCount := by
    unfold addrCount
    exact ⟨2 ^ 32 - (s.length + 2), by omega⟩
  have hsucc : toU32 ((a : Int) + 1) = a + 1 := toU32_natCast (n := a + 1) (by omega)
  rw [getFileName_back hs hfits (Nat.le_refl _) rfl hn fun x => not_separator_of_isStr hs hno,
    toU32_pred (by omega), fileNameStart_stop (Or.inr (Nat.lt_succ_self a))]
  refine ⟨_, congrArg some (Prod.ext hsucc rfl), fun x hx => ?_⟩
  simp only [List.mem_cons, List.mem_append, List.mem_range'_1, List.mem_reverse] at hx
  omega

/-- Without a separator the function does not stay inside the path. -/
theorem not_findsName (hs : IsStr m a s) (hno : ∀ c ∈ s, ¬ IsSeparator c)
    (hfits : a + s.length < 2 ^ 32) : ¬ FindsName m a s := by
  rintro ⟨r, reads, hret, hinside, -⟩
  obtain ⟨n, hn⟩ : ∃ n, n + (s.length + 1) = addrCount := by
    unfold addrCount
    exact ⟨2 ^ 32 - (s.length + 1), by omega⟩
  rw [getFileName_back hs hfits (Nat.le_refl a) rfl hn fun x => not_separator_of_isStr hs hno]
    at hret
  obtain ⟨⟨s', reads'⟩, hloop, heq⟩ := Option.map_eq_some_iff.mp hret
  obtain ⟨-, rfl⟩ := Prod.mk.inj heq
  -- The byte in front was read, so it should be one of the path.
  obtain ⟨hlow, hhigh⟩ := hinside _ (fileNameStart_reads hloop).1
  cases a with
  | zero =>
    -- The address in front of 0 is the last one, and the loop has read all the others.
    have hlast : toU32 (((0 : Nat) : Int) - 1) = 2 ^ 32 - 1 := by decide
    rw [hlast] at hhigh
    unfold addrCount at hn
    obtain rfl : n = 0 := by omega
    cases hloop
  | succ a =>
    rw [toU32_pred (by omega)] at hlow
    exact absurd hlow (Nat.not_succ_le_self a)

/-- A path with a separator: the result is the name of the file. -/
theorem pointsToName_behind (hs : IsStr m a (d ++ c :: t)) (hc : IsSeparator c)
    (hno : ∀ c ∈ t, ¬ IsSeparator c) : PointsToName m a (d ++ c :: t) (a + d.length + 1) := by
  refine ⟨t, ⟨hno, Or.inr ⟨d, c, hc, rfl⟩⟩, ?_, hs.right.2.2⟩
  rw [List.length_append, List.length_cons]
  omega

/-- The result is the name of the file, also when there is no separator, and at most one byte
outside of the path is read, the one in front of it. -/
theorem getFileName_name (ha : a ≠ 0) (hs : IsStr m a s) (hfits : a + s.length < 2 ^ 32) :
    ∃ r reads, getFileName m a = some (r, reads) ∧ PointsToName m a s r ∧
      ∀ x ∈ reads, a ≤ x + 1 ∧ x ≤ a + s.length := by
  obtain ⟨t, hno, rfl | ⟨d, c, hc, rfl⟩⟩ := exists_isFileName s
  · obtain ⟨a, rfl⟩ := Nat.exists_eq_succ_of_ne_zero ha
    obtain ⟨reads, hret, hreads⟩ := getFileName_no_separator hs hno hfits
    exact ⟨a + 1, reads, hret, ⟨t, ⟨hno, Or.inl rfl⟩, rfl, hs⟩, fun x hx =>
      ⟨Nat.succ_le_succ (hreads x hx).1, (hreads x hx).2⟩⟩
  · obtain ⟨reads, hret, hreads⟩ := getFileName_separator hs hc hno hfits
    exact ⟨_, reads, hret, pointsToName_behind hs hc hno, fun x hx =>
      ⟨Nat.le_succ_of_le (hreads x hx).1, (hreads x hx).2⟩⟩

/-- `get_file_name` returns the name of the file and reads nothing outside of the path if and only
if the path has a separator. -/
theorem getFileName_iff (hs : IsStr m a s) (hfits : a + s.length < 2 ^ 32) :
    FindsName m a s ↔ ∃ c ∈ s, IsSeparator c := by
  constructor
  · intro hfinds
    by_contra hnone
    exact not_findsName hs (fun c hc hsep => hnone ⟨c, hc, hsep⟩) hfits hfinds
  · rintro ⟨c', hc', hsep⟩
    obtain ⟨t, hno, rfl | ⟨d, c, hc, rfl⟩⟩ := exists_isFileName s
    · exact absurd hsep (hno c' hc')
    · obtain ⟨reads, hret, hreads⟩ := getFileName_separator hs hc hno hfits
      exact ⟨_, reads, hret, hreads, pointsToName_behind hs hc hno⟩

/-- The path "/sh" at the address 100, and the path "sh" behind its separator. -/
def slashSh : Mem := fun x =>
  if x = 100 then char '/' else if x = 101 then char 's' else if x = 102 then char 'h' else 0#8

/-- The name of "/sh" is found inside the path. -/
theorem getFileName_iff_slash_sh : FindsName slashSh 100 [char '/', char 's', char 'h'] ↔
    ∃ c ∈ [char '/', char 's', char 'h'], IsSeparator c :=
  getFileName_iff (by decide) (by decide)

/-- In "sh" there is no separator, and the byte in front of the path is read. -/
theorem not_findsName_sh : IsStr slashSh 101 [char 's', char 'h'] ∧
    getFileName slashSh 101 = some (101, [100, 101, 102, 103, 103, 102, 101]) ∧
    ¬ FindsName slashSh 101 [char 's', char 'h'] := by
  have hret : getFileName slashSh 101 = some (101, [100, 101, 102, 103, 103, 102, 101]) := by decide
  refine ⟨by decide, hret, ?_⟩
  rintro ⟨r, reads, hret', hinside, -⟩
  rw [hret] at hret'
  obtain ⟨-, rfl⟩ := Prod.mk.inj (Option.some.inj hret')
  exact absurd (hinside 100 List.mem_cons_self).1 (by decide)

end StartKernel
