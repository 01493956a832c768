import StartKernel.Proofs.KernelHalf

/-!
# `StartKernel.Proofs.CopyFrames`: how many frames a copy needs

A copy takes a frame for the directory, one for each page of the source, and one for each table
that has a page. The two loops take these frames in the order of the entries, so the number of free
frames decides where a copy stops.

* `copyCost`: the frames for a number of tables.
* `copyPages_ends`, `copyTables_ends`: a loop gets to its end when there are enough frames. When it
  stops at a page that has a frame but no table, this frame is left over.
* `memoryCopyUvm_ends`: the ways in which `memory_copy_uvm` ends.
-/

set_option autoImplicit false

namespace StartKernel

open ByteMem (Mem load32)

variable {L : Layout} {s s' s₁ : MemState} {live held : List Nat} {m m' : Mem}
  {d d₀ f g i j k n p r t cr3 cost c : Nat} {leak leak' : Prop} {ok : Bool}

/-! ### Counting pages -/

/-- How many of `n` entries from the index `j` on are pages, in the table `i` of a directory. -/
def pagesFrom (m : Mem) (d i j : Nat) : Nat → Nat
  | 0 => 0
  | n + 1 => (if pageAt m d i j = none then 0 else 1) + pagesFrom m d i (j + 1) n

/-- The frames for the copy of one table: one for each page, and one for the table when it has a
page. -/
def tableCost (m : Mem) (d i : Nat) : Nat :=
  pagesFrom m d i 0 1024 + if 0 < pagesFrom m d i 0 1024 then 1 else 0

/-- The frames for the copies of `n` tables from the index `i` on. -/
def copyCost (m : Mem) (d i : Nat) : Nat → Nat
  | 0 => 0
  | n + 1 => tableCost m d i + copyCost m d (i + 1) n

theorem pagesFrom_congr (h : SamePages m m' d) (hi : i < 1024) (hn : j + n ≤ 1024) :
    pagesFrom m' d i j n = pagesFrom m d i j n := by
  induction n generalizing j with
  | zero => rfl
  | succ n ih =>
    show _ + pagesFrom m' d i (j + 1) n = _ + pagesFrom m d i (j + 1) n
    rw [h.pages i hi j (by omega), ih (by omega)]

theorem tableCost_congr (h : SamePages m m' d) (hi : i < 1024) :
    tableCost m' d i = tableCost m d i := by
  unfold tableCost
  rw [pagesFrom_congr h hi (Nat.le_of_eq (Nat.zero_add 1024))]

theorem copyCost_congr (h : SamePages m m' d) (hn : i + n ≤ 1024) :
    copyCost m' d i n = copyCost m d i n := by
  induction n generalizing i with
  | zero => rfl
  | succ n ih =>
    show _ + copyCost m' d (i + 1) n = _ + copyCost m d (i + 1) n
    rw [tableCost_congr h (by omega), ih (by omega)]

/-- There are no pages to count. -/
theorem pagesFrom_eq_zero (h : ∀ j', j ≤ j' → j' < j + n → pageAt m d i j' = none) :
    pagesFrom m d i j n = 0 := by
  induction n generalizing j with
  | zero => rfl
  | succ n ih =>
    show (if pageAt m d i j = none then 0 else 1) + pagesFrom m d i (j + 1) n = 0
    rw [if_pos (h j (Nat.le_refl j) (by omega)), ih fun j' h₁ h₂ => h j' (by omega) (by omega)]

/-- A directory without a table has no pages there. -/
theorem pagesFrom_no_table (ht : tableAt m d i = none) : pagesFrom m d i j n = 0 :=
  pagesFrom_eq_zero fun _ _ _ => pageAt_of_no_table ht

theorem copyCost_eq_zero (h : ∀ i', i ≤ i' → i' < i + n → tableAt m d i' = none) :
    copyCost m d i n = 0 := by
  induction n generalizing i with
  | zero => rfl
  | succ n ih =>
    show tableCost m d i + copyCost m d (i + 1) n = 0
    unfold tableCost
    rw [pagesFrom_no_table (h i (Nat.le_refl i) (by omega)),
      ih fun i' h₁ h₂ => h i' (by omega) (by omega)]
    rfl

/-- A table with a page needs two frames at least, besides those of the tables before it. -/
theorem copyCost_lt (hk : k < n) (hpages : 0 < pagesFrom m d (i + k) 0 1024) :
    copyCost m d i k + 2 ≤ copyCost m d i n := by
  induction n generalizing i k with
  | zero => exact absurd hk (Nat.not_lt_zero k)
  | succ n ih =>
    cases k with
    | zero =>
      show 0 + 2 ≤ tableCost m d i + _
      rw [Nat.add_zero] at hpages
      unfold tableCost
      rw [if_pos hpages]
      omega
    | succ k =>
      show tableCost m d i + copyCost m d (i + 1) k + 2 ≤ tableCost m d i + copyCost m d (i + 1) n
      have hrest := ih (i := i + 1) (Nat.lt_of_succ_lt_succ hk)
        (by rwa [Nat.add_assoc, Nat.add_comm 1 k])
      omega

/-! ### The loops -/

/-- How a loop of `memory_copy_uvm` ends that needs `cost` frames. It gets to its end with these
frames taken, or there were fewer. Then it leaves a frame over exactly when `leak` holds. -/
def CopyEnds (L : Layout) (live held : List Nat) (s : MemState) (d cost : Nat) (leak : Prop)
    (ok : Bool) (s' : MemState) : Prop :=
  ∃ s₁, MemInv L s₁ live held ∧ Grown s d s₁ ∧
    ((ok = true ∧ s' = s₁ ∧ freeCount s.paddrAlloc = freeCount s'.paddrAlloc + cost) ∨
      (ok = false ∧ freeCount s.paddrAlloc < cost ∧
        ((¬ leak ∧ s' = s₁) ∨ (leak ∧ ∃ f, Leaked s₁ f s'))))

/-- Some frames were taken in front of the loop. -/
theorem CopyEnds.after (h : CopyEnds L live held s₁ d cost leak' ok s') (hgrown : Grown s d s₁)
    (hcount : freeCount s.paddrAlloc = freeCount s₁.paddrAlloc + c) (hleak : leak' ↔ leak) :
    CopyEnds L live held s d (c + cost) leak ok s' := by
  obtain ⟨s₂, hinv, hgrown', hend⟩ := h
  refine ⟨s₂, hinv, hgrown.trans hgrown', ?_⟩
  rw [← hleak]
  rcases hend with ⟨hok, hs, hfree⟩ | ⟨hok, hfree, hend⟩
  · exact Or.inl ⟨hok, hs, by omega⟩
  · exact Or.inr ⟨hok, by omega, hend⟩

/-- The inner loop of `memory_copy_uvm` needs a frame for each page, and one for the table when it
is not there yet. It leaves a frame over when there is one for the first page but none for the
table. -/
theorem copyPages_ends (h : MemInv L s live held) (hd : d ∈ live) (hd₀ : d₀ ∈ live) (hne : d₀ ≠ d)
    (h₁ : 512 ≤ i) (h₂ : i < 1024) (ht : tableAt s.mem d₀ i = some t) (hn : j + n = 1024)
    (hun : UnmappedFrom s.mem d i j) (he : copyPages cr3 s d (t + 4 * j) i j n = some (ok, s')) :
    CopyEnds L live held s d (pagesFrom s.mem d₀ i j n +
        if tableAt s.mem d i = none ∧ 0 < pagesFrom s.mem d₀ i j n then 1 else 0)
      (tableAt s.mem d i = none ∧ freeCount s.paddrAlloc = 1) ok s' ∧
    ∀ i' < 1024, i' ≠ i → tableAt s'.mem d i' = tableAt s.mem d i' := by
  induction n generalizing s j with
  | zero =>
    obtain ⟨rfl, rfl⟩ := Prod.mk.inj (Option.some.inj he)
    refine ⟨⟨s, h, Grown.refl h hd, Or.inl ⟨rfl, rfl, ?_⟩⟩, fun i' _ _ => rfl⟩
    simp [pagesFrom]
  | succ n ih =>
    have hj : j < 1024 := by omega
    have hfree := hun.free h₂ hj
    have haddr : t + 4 * j + 4 = t + 4 * (j + 1) := by omega
    have hstepCount : pagesFrom s.mem d₀ i j (n + 1) =
        (if pageAt s.mem d₀ i j = none then 0 else 1) + pagesFrom s.mem d₀ i (j + 1) n := rfl
    -- When the entry is present, the source has a page.
    have hpage : present (load32 s.mem (t + 4 * j)) = true →
        pagesFrom s.mem d₀ i j (n + 1) = 1 + pagesFrom s.mem d₀ i (j + 1) n := by
      intro hp
      rw [hstepCount, pageAt_of_table ht]
      unfold entryAt
      rw [if_pos hp, if_neg (Option.some_ne_none _)]
    rcases copyPages_step cr3 (t + 4 * j) h hd h₁ h₂ hj hfree with
      ⟨hp, hstep⟩ | ⟨hp, hzero, hstep⟩ | ⟨hp, p, s₁, hleak, hzero, htable, hstep⟩ |
      ⟨hp, p, s₁, hadded, hstep⟩
    · -- The source has no page here.
      have hnone : pageAt s.mem d₀ i j = none := by
        rw [pageAt_of_table ht, entryAt, hp]
        rfl
      rw [hstep n, haddr] at he
      rw [hstepCount, if_pos hnone, Nat.zero_add]
      exact ih h ht (by omega) hun.next he
    · -- No frame is free.
      rw [hstep n] at he
      obtain ⟨rfl, rfl⟩ := Prod.mk.inj (Option.some.inj he)
      have hone := hpage hp
      exact ⟨⟨s, h, Grown.refl h hd, Or.inr ⟨rfl, by omega, Or.inl ⟨by omega, rfl⟩⟩⟩,
        fun i' _ _ => rfl⟩
    · -- One frame is free, and it stays taken.
      rw [hstep n] at he
      obtain ⟨rfl, rfl⟩ := Prod.mk.inj (Option.some.inj he)
      have hone := hpage hp
      have hcount : freeCount s.paddrAlloc = 1 := by
        obtain ⟨a', ha, rfl⟩ := hleak
        have hleft := ha.count
        have hnone : freeCount a' = 0 := hzero
        omega
      refine ⟨⟨s, h, Grown.refl h hd, Or.inr ⟨rfl, ?_, Or.inr ⟨⟨htable, hcount⟩, p, hleak⟩⟩⟩, ?_⟩
      · rw [if_pos ⟨htable, by omega⟩]
        omega
      · obtain ⟨a', -, rfl⟩ := hleak
        exact fun i' _ _ => rfl
    · -- The page is copied. Now there is a table.
      have hperm : getPtePerm (load32 s.mem (t + 4 * j)) < 4096 := by
        unfold getPtePerm
        omega
      rw [hstep n] at he
      obtain ⟨m, hm, he⟩ := Option.bind_eq_some_iff.mp he
      have hfilled := hadded.write hd h₁ h₂ hj hperm
        (kernelMemcpy_touched hadded.frame.aligned hm)
      have hgrown := hfilled.grown hd h₁ h₂ hj hperm hfree
      have hsrc := hfilled.inv.samePages hd hgrown.touched (Or.inr hd₀) hne
      rw [haddr] at he
      obtain ⟨hends, htables⟩ := ih hfilled.inv ((hsrc.tables i h₂).trans ht) (by omega)
        (hun.added hfilled) he
      refine ⟨?_, fun i' hi' hii => (htables i' hi' hii).trans (hfilled.tables i' hi' hii)⟩
      rw [pagesFrom_congr hsrc h₂ (by omega), if_neg fun hno => hfilled.table hno.1,
        Nat.add_zero] at hends
      have hcount : freeCount s.paddrAlloc = freeCount s₁.paddrAlloc + 1 +
          if tableAt s.mem d i = none then 1 else 0 := hfilled.count
      have hone := hpage hp
      have hcost : (if tableAt s.mem d i = none ∧ 0 < pagesFrom s.mem d₀ i j (n + 1) then 1 else 0)
          = if tableAt s.mem d i = none then 1 else 0 := by
        congr 1
        rw [hone]
        simp
      -- With the table there, no frame is left over any more.
      have hleak : (tableAt m d i = none ∧ freeCount s₁.paddrAlloc = 1) ↔
          (tableAt s.mem d i = none ∧ freeCount s.paddrAlloc = 1) := by
        constructor
        · exact fun hno => absurd hno.1 hfilled.table
        · rintro ⟨hnone, hfree₁⟩
          rw [if_pos hnone] at hcount
          omega
      have hsum := hends.after hgrown (hcount.trans (Nat.add_assoc _ _ _)) hleak
      have hsame : 1 + pagesFrom s.mem d₀ i (j + 1) n + (if tableAt s.mem d i = none then 1 else 0)
          = 1 + (if tableAt s.mem d i = none then 1 else 0) + pagesFrom s.mem d₀ i (j + 1) n := by
        omega
      rw [hcost, hone, hsame]
      exact hsum

/-- The outer loop takes a page without a table for it, when it gets to `k` tables and exactly one
frame is free then. -/
def LoopLeaks (s : MemState) (d₀ i n : Nat) : Prop :=
  ∃ k < n, 0 < pagesFrom s.mem d₀ (i + k) 0 1024 ∧
    freeCount s.paddrAlloc = copyCost s.mem d₀ i k + 1

/-- The first table and the others. -/
theorem loopLeaks_succ : LoopLeaks s d₀ i (n + 1) ↔
    (0 < pagesFrom s.mem d₀ i 0 1024 ∧ freeCount s.paddrAlloc = 1) ∨
    ∃ k < n, 0 < pagesFrom s.mem d₀ (i + 1 + k) 0 1024 ∧
      freeCount s.paddrAlloc = tableCost s.mem d₀ i + copyCost s.mem d₀ (i + 1) k + 1 := by
  have hshift : ∀ k, i + 1 + k = i + (k + 1) := fun k => by omega
  constructor
  · rintro ⟨k, hk, hpages, hfree⟩
    cases k with
    | zero => exact Or.inl ⟨hpages, hfree.trans (Nat.zero_add 1)⟩
    | succ k => exact Or.inr ⟨k, Nat.lt_of_succ_lt_succ hk, by rwa [hshift], hfree⟩
  · rintro (⟨hpages, hfree⟩ | ⟨k, hk, hpages, hfree⟩)
    · exact ⟨0, Nat.succ_pos n, hpages, hfree.trans (Nat.zero_add 1).symm⟩
    · exact ⟨k + 1, Nat.succ_lt_succ hk, by rwa [← hshift], hfree⟩

/-- A table that costs a frame has a page. -/
theorem pagesFrom_pos (h : 0 < tableCost m d i) : 0 < pagesFrom m d i 0 1024 := by
  unfold tableCost at h
  by_contra hzero
  rw [if_neg hzero] at h
  omega

/-- A table that is copied was paid for, and leaves no frame over. -/
theorem loopLeaks_after (hsrc : SamePages s.mem s₁.mem d₀) (hn : i + (n + 1) ≤ 1024)
    (hcount : freeCount s.paddrAlloc = freeCount s₁.paddrAlloc + tableCost s.mem d₀ i) :
    LoopLeaks s₁ d₀ (i + 1) n ↔ LoopLeaks s d₀ i (n + 1) := by
  rw [loopLeaks_succ]
  constructor
  · rintro ⟨k, hk, hpages, hfree⟩
    rw [pagesFrom_congr hsrc (by omega) (Nat.le_of_eq (Nat.zero_add 1024))] at hpages
    rw [copyCost_congr hsrc (by omega)] at hfree
    exact Or.inr ⟨k, hk, hpages, by omega⟩
  · rintro (⟨hpages, hfree⟩ | ⟨k, hk, hpages, hfree⟩)
    · have htwo : 2 ≤ tableCost s.mem d₀ i := by
        unfold tableCost
        rw [if_pos hpages]
        omega
      omega
    · refine ⟨k, hk, ?_, ?_⟩
      · rwa [pagesFrom_congr hsrc (by omega) (Nat.le_of_eq (Nat.zero_add 1024))]
      · rw [copyCost_congr hsrc (by omega)]
        omega

/-- In a table that cannot be paid for, a frame is left over when it is the only one. -/
theorem loopLeaks_stop (hlt : freeCount s.paddrAlloc < tableCost s.mem d₀ i) :
    freeCount s.paddrAlloc = 1 ↔ LoopLeaks s d₀ i (n + 1) := by
  rw [loopLeaks_succ]
  constructor
  · exact fun hfree => Or.inl ⟨pagesFrom_pos (Nat.zero_lt_of_lt hlt), hfree⟩
  · rintro (⟨-, hfree⟩ | ⟨k, -, -, hfree⟩)
    · exact hfree
    · omega

/-- The inner loop over a whole table, when the new directory has no table for it yet: the table is
paid for with the first page. -/
theorem copyTable_ends (h : MemInv L s live held) (hd : d ∈ live) (hd₀ : d₀ ∈ live) (hne : d₀ ≠ d)
    (h₁ : 512 ≤ i) (h₂ : i < 1024) (ht : tableAt s.mem d₀ i = some t)
    (hnone : ∀ i', i ≤ i' → i' < 1024 → tableAt s.mem d i' = none)
    (he : copyPages cr3 s d t i 0 pteCnt = some (ok, s')) :
    CopyEnds L live held s d (tableCost s.mem d₀ i) (freeCount s.paddrAlloc = 1) ok s' ∧
      ∀ i' < 1024, i' ≠ i → tableAt s'.mem d i' = tableAt s.mem d i' := by
  have hun : UnmappedFrom s.mem d i 0 := fun i' hi' j' hj' hij =>
    pageAt_of_no_table (hnone i' (by omega) hi')
  have hcnt : pteCnt = 1024 := rfl
  have hpte : t + 4 * 0 = t := by rw [Nat.mul_zero, Nat.add_zero]
  rw [hcnt, ← hpte] at he
  have hends := copyPages_ends h hd hd₀ hne h₁ h₂ ht (Nat.zero_add 1024) hun he
  have htable := hnone i (Nat.le_refl i) h₂
  have hcost : pagesFrom s.mem d₀ i 0 1024 + (if tableAt s.mem d i = none ∧
      0 < pagesFrom s.mem d₀ i 0 1024 then 1 else 0) = tableCost s.mem d₀ i := by
    unfold tableCost
    simp only [htable, true_and]
  rw [hcost] at hends
  simpa only [htable, true_and] using hends

/-- The outer loop of `memory_copy_uvm` needs the frames for all tables, when the new directory has
none yet. -/
theorem copyTables_ends (h : MemInv L s live held) (hd : d ∈ live) (hd₀ : d₀ ∈ live)
    (hne : d₀ ≠ d) (h₁ : 512 ≤ i) (hn : i + n = 1024)
    (hnone : ∀ i', i ≤ i' → i' < 1024 → tableAt s.mem d i' = none)
    (he : copyTables cr3 s d (d₀ + 4 * i) i n = some (ok, s')) :
    CopyEnds L live held s d (copyCost s.mem d₀ i n) (LoopLeaks s d₀ i n) ok s' := by
  induction n generalizing s i with
  | zero =>
    obtain ⟨rfl, rfl⟩ := Prod.mk.inj (Option.some.inj he)
    exact ⟨s, h, Grown.refl h hd, Or.inl ⟨rfl, rfl, rfl⟩⟩
  | succ n ih =>
    have h₂ : i < 1024 := by omega
    have haddr : d₀ + 4 * i + 4 = d₀ + 4 * (i + 1) := by omega
    rw [copyTables] at he
    split at he
    · rename_i hp
      have ht : tableAt s.mem d₀ i = some (pdePaddr (load32 s.mem (d₀ + 4 * i))) := by
        unfold tableAt entryAt
        rw [if_pos hp]
      obtain ⟨⟨ok₁, s₁⟩, hpages, he⟩ := Option.bind_eq_some_iff.mp he
      obtain ⟨⟨s₂, hinv, hgrown, hend⟩, htables⟩ :=
        copyTable_ends h hd hd₀ hne h₁ h₂ ht hnone hpages
      rcases hend with ⟨rfl, rfl, hcount⟩ | ⟨rfl, hlt, hend⟩
      · -- The table is copied.
        have hsrc := hinv.samePages hd hgrown.touched (Or.inr hd₀) hne
        rw [haddr] at he
        have hrest := ih hinv (by omega) (by omega)
          (fun i' hi' hlt => (htables i' hlt (by omega)).trans (hnone i' (by omega) hlt)) he
        rw [copyCost_congr hsrc (by omega)] at hrest
        exact hrest.after hgrown hcount (loopLeaks_after hsrc (by omega) hcount)
      · -- The loop stops in this table.
        obtain ⟨rfl, rfl⟩ := Prod.mk.inj (Option.some.inj he)
        refine ⟨s₂, hinv, hgrown, Or.inr ⟨rfl, ?_, ?_⟩⟩
        · show _ < tableCost s.mem d₀ i + _
          omega
        · rw [← loopLeaks_stop hlt]
          exact hend
    · -- There is no table.
      rename_i hp
      have ht : tableAt s.mem d₀ i = none := by
        unfold tableAt entryAt
        rw [if_neg hp]
      have hzero : tableCost s.mem d₀ i = 0 := by
        unfold tableCost
        rw [pagesFrom_no_table ht]
        rfl
      rw [haddr] at he
      have hrest := ih h (by omega) (by omega) (fun i' hi' hlt => hnone i' (by omega) hlt) he
      have hcount : freeCount s.paddrAlloc = freeCount s.paddrAlloc + tableCost s.mem d₀ i := by
        rw [hzero, Nat.add_zero]
      exact hrest.after (Grown.refl h hd) hcount
        (loopLeaks_after (SamePages.refl _ _) (by omega) hcount)

/-! ### The call -/

/-- The copy of the address space of `d₀` leaves a frame over: after the directory and `k` tables
exactly one frame is free, and the next table has a page. -/
def CopyLeaks (s : MemState) (d₀ : Nat) : Prop :=
  ∃ k < 512, 0 < pagesFrom s.mem d₀ (512 + k) 0 1024 ∧
    freeCount s.paddrAlloc = copyCost s.mem d₀ 512 k + 2

/-- The three ways in which `memory_copy_uvm` ends. With enough frames it returns a directory. With
fewer it returns an error, and all frames are free as before, or one of them stays taken. -/
theorem memoryCopyUvm_ends (h : MemInv L s live held) (hd₀ : d₀ ∈ live)
    (he : memoryCopyUvm L cr3 s d₀ = some (r, s')) :
    (r ≠ toU32 (-1) ∧ copyCost s.mem d₀ 512 512 < freeCount s.paddrAlloc) ∨
    (r = toU32 (-1) ∧ freeCount s.paddrAlloc ≤ copyCost s.mem d₀ 512 512 ∧ ¬ CopyLeaks s d₀ ∧
      ∀ g, Taken s'.paddrAlloc g ↔ Taken s.paddrAlloc g) ∨
    (r = toU32 (-1) ∧ freeCount s.paddrAlloc ≤ copyCost s.mem d₀ 512 512 ∧ CopyLeaks s d₀ ∧
      ∃ f, ¬ Taken s.paddrAlloc f ∧ Taken s'.paddrAlloc f) := by
  rcases memoryCreateUvm_cases h with ⟨d, a', hnew, ha, hinv⟩ | ⟨hnew, hzero⟩
  swap
  · -- There is no frame for the directory.
    unfold memoryCopyUvm at he
    simp only [hnew, if_true] at he
    obtain ⟨rfl, rfl⟩ := Prod.mk.inj (Option.some.inj he)
    refine Or.inr (Or.inl ⟨rfl, by omega, ?_, fun _ => Iff.rfl⟩)
    rintro ⟨k, -, -, hfree⟩
    omega
  have hpos : d ≠ 0 := ha.frame.ne_zero
  have herr : d ≠ toU32 (-1) := ha.frame.ne_error
  have hne : d₀ ≠ d := h.root_ne_fresh (Or.inr hd₀) ha.fresh ha.frame
  have hk := h.root_ne_fresh (Or.inl rfl) ha.fresh ha.frame
  have hcreated := created_newDir h ha
  have hsrc := hcreated.samePages hinv (Or.inr hd₀)
  rw [memoryCopyUvm_eq hnew hpos] at he
  obtain ⟨⟨ok, s₁⟩, htables, he⟩ := Option.bind_eq_some_iff.mp he
  obtain ⟨s₂, hinv₂, hgrown, hend⟩ := copyTables_ends hinv List.mem_cons_self
    (List.mem_cons_of_mem d hd₀) hne (Nat.le_refl 512) rfl
    (fun i' h₁ h₂ => newDir_tableAt s.mem ha.frame hk h₁ h₂) htables
  -- The directory has taken one frame.
  have hcount : freeCount s.paddrAlloc = freeCount a' + 1 := ha.count
  have hleaks : LoopLeaks ⟨newDir L s.mem d, a'⟩ d₀ 512 512 ↔ CopyLeaks s d₀ := by
    have hpages : ∀ k < 512, pagesFrom (newDir L s.mem d) d₀ (512 + k) 0 1024
        = pagesFrom s.mem d₀ (512 + k) 0 1024 := fun k hk =>
      pagesFrom_congr hsrc (by omega) (Nat.le_of_eq (Nat.zero_add 1024))
    have hcost : ∀ k < 512, copyCost (newDir L s.mem d) d₀ 512 k = copyCost s.mem d₀ 512 k :=
      fun k hk => copyCost_congr hsrc (by omega)
    constructor
    · rintro ⟨k, hk, hpage, hfree⟩
      have hfree : freeCount a' = _ := hfree
      rw [hcost k hk] at hfree
      exact ⟨k, hk, hpages k hk ▸ hpage, by omega⟩
    · rintro ⟨k, hk, hpage, hfree⟩
      refine ⟨k, hk, (hpages k hk).symm ▸ hpage, ?_⟩
      show freeCount a' = copyCost (newDir L s.mem d) d₀ 512 k + 1
      rw [hcost k hk]
      omega
  have hcost := copyCost_congr (i := 512) (n := 512) hsrc (by decide)
  rw [hleaks, hcost] at hend
  rcases hend with ⟨rfl, rfl, hfree⟩ | ⟨rfl, hlt, hend⟩
  · obtain ⟨rfl, rfl⟩ := Prod.mk.inj (Option.some.inj he)
    have hfree : freeCount a' = _ := hfree
    exact Or.inl ⟨herr, by omega⟩
  · have hlt : freeCount a' < copyCost s.mem d₀ 512 512 := hlt
    have hend' : s₁ = s₂ ∨ ∃ f, Leaked s₂ f s₁ := hend.imp And.right And.right
    obtain ⟨s₃, hdestroy, -, -, hsame, hleft⟩ := (hcreated.trans hgrown).destroy hinv₂ hend'
    simp only [hdestroy, Bool.false_eq_true, if_false, Option.map_some] at he
    obtain ⟨rfl, rfl⟩ := Prod.mk.inj (Option.some.inj he)
    rcases hend with ⟨hno, heq⟩ | ⟨hleak, f, hf⟩
    · exact Or.inr (Or.inl ⟨rfl, by omega, hno, hsame heq⟩)
    · obtain ⟨hfresh, htaken⟩ := hleft f hf
      exact Or.inr (Or.inr ⟨rfl, by omega, hleak, f, hfresh, (htaken f).mpr (Or.inr rfl)⟩)

end StartKernel
