import StartKernel.Proofs.AllocPages

/-!
# `StartKernel.Proofs.AllocForPageDir`: what `memory_alloc_for_page_dir` reports

A caller of `memory_alloc_for_page_dir` tests its result for an error, as an `int`.
`ReportsFailure` says what it relies on: the result is 0 exactly when the whole range is
mapped, and otherwise it is negative and the range is as it was, with no frame lost.

* `reportsFailure_iff`: this holds exactly when there are frames for the whole range.
* `alloc_without_frames`: with no free frame the call returns 0 and maps nothing.
-/

set_option autoImplicit false

namespace StartKernel

open ByteMem (Mem)

variable {L : Layout} {s s' : MemState} {live held : List Nat} {d i k n v vaddr size perm : Nat}

/-- Every page of the range is mapped with the permission `perm`. -/
def AllMapped (m : Mem) (d vaddr n perm : Nat) : Prop :=
  ∀ k < n, ∃ e, walk m d (vaddr + 4096 * k) = some e ∧ e % 4096 = perm ||| pteP

/-- No page of the range is mapped, and every frame that was taken and is not free again is
a page table. -/
def Undone (s : MemState) (d vaddr n : Nat) (s' : MemState) : Prop :=
  (∀ k < n, walk s'.mem d (vaddr + 4096 * k) = none) ∧
  ∀ f, Taken s'.paddrAlloc f → ¬ Taken s.paddrAlloc f → ∃ i < 1024, tableAt s'.mem d i = some f

/-- The call returns 0 exactly when all pages are mapped; otherwise it returns a negative
error and undoes what it did. -/
def ReportsFailure (s : MemState) (d vaddr size perm : Nat) : Prop :=
  ∃ ret s', memoryAllocForPageDir s d vaddr size perm = some (ret, s') ∧
    (ret = 0 ↔ AllMapped s'.mem d vaddr ((size + 4095) / 4096) perm) ∧
    (¬ AllMapped s'.mem d vaddr ((size + 4095) / 4096) perm →
      toInt ret < 0 ∧ Undone s d vaddr ((size + 4095) / 4096) s')

/-- The range of a call: whole pages of the user half, none of them mapped. -/
structure FreeRange (m : Mem) (d vaddr n : Nat) : Prop where
  aligned : vaddr % 4096 = 0
  user : 0x80000000 ≤ vaddr
  lt : vaddr < 2 ^ 32
  inside : vaddr + 4096 * n ≤ 2 ^ 32
  unmapped : ∀ k < n, walk m d (vaddr + 4096 * k) = none

/-- The size of a range in the user half, rounded up to pages, does not wrap. -/
theorem FreeRange.size_lt {m : Mem} (h : FreeRange m d vaddr ((size + 4095) / 4096)) :
    size + 4095 < 2 ^ 32 := by
  have huser := h.user
  have hinside := h.inside
  omega

/-- The call as its loop. -/
theorem memoryAllocForPageDir_eq (hv : vaddr % 4096 = 0) (hlt : vaddr < 2 ^ 32)
    (hsize : size + 4095 < 2 ^ 32) :
    memoryAllocForPageDir s d vaddr size perm =
      allocForPages s d vaddr (toU32 vaddr) perm 0 ((size + 4095) / 4096) := by
  have hdown : down2 vaddr memPageSize = vaddr := by
    have he := down2_page hlt
    unfold memPageSize
    omega
  have hcount : up2 size memPageSize / memPageSize = (size + 4095) / 4096 := by
    have he := up2_page hsize
    unfold memPageSize
    omega
  unfold memoryAllocForPageDir
  simp only
  rw [hdown, hcount, toU32_natCast hlt]

/-- The pages of a mapped range have the permission. -/
theorem RangeMapped.allMapped (h : RangeMapped s d v n perm s') (hperm : perm < 4096) :
    AllMapped s'.mem d v n perm := by
  intro k hk
  obtain ⟨f, hf, hal, -⟩ := h.pages k hk
  exact ⟨_, hf, (entry_fields hal hperm).2.2⟩

/-- A page behind a mapped range is not mapped. -/
theorem RangeMapped.not_mapped {j : Nat} (h : RangeMapped s d v k perm s')
    (hv : v + 4096 * n ≤ 2 ^ 32) (hkj : k ≤ j) (hj : j < n)
    (hfree : walk s.mem d (v + 4096 * j) = none) : walk s'.mem d (v + 4096 * j) = none := by
  rw [← hfree]
  refine h.others _ (pdeIndex_lt (by omega)) _ (pteIndex_lt _) fun l hl hij => ?_
  have hsame := same_page hij.1 hij.2
  omega

/-- With no free frame, the call returns 0 and does nothing. -/
theorem memoryAllocForPageDir_no_frame (h : PallocShape s.paddrAlloc)
    (hfree : freeCount s.paddrAlloc = 0) (hv : vaddr % 4096 = 0) (hlt : vaddr < 2 ^ 32)
    (hpos : 0 < size) (hsize : size + 4095 < 2 ^ 32) :
    memoryAllocForPageDir s d vaddr size perm = some (0, s) := by
  obtain ⟨n, hn⟩ : ∃ n, (size + 4095) / 4096 = n + 1 := ⟨(size + 4095) / 4096 - 1, by omega⟩
  have hnone : s.allocPage = (0, s) := by
    rcases allocPage_cases h with ⟨f, a', -, ha⟩ | ⟨he, -⟩
    · have hcount := ha.count
      omega
    · exact he
  rw [memoryAllocForPageDir_eq hv hlt hsize, hn, allocForPages]
  simp only [hnone, if_true]

/-- The result `-1` is negative as an `int`. -/
theorem toInt_error : toInt (toU32 (-1)) = -1 := by decide

/-- The call reports a failure and undoes it exactly when it does not fail: when there is a
frame for every page of the range and for every table it needs. -/
theorem reportsFailure_iff (h : MemInv L s live held) (hd : d ∈ live) (hperm : perm < 4096)
    (hrange : FreeRange s.mem d vaddr ((size + 4095) / 4096)) :
    ReportsFailure s d vaddr size perm ↔
      framesNeeded s.mem d vaddr ((size + 4095) / 4096) ≤ freeCount s.paddrAlloc := by
  unfold ReportsFailure
  rw [memoryAllocForPageDir_eq hrange.aligned hrange.lt hrange.size_lt]
  rcases allocForPages_cases (i := 0) h hd hperm hrange.user hrange.lt hrange.user
      hrange.inside with
    ⟨hle, s', he, hr, -⟩ | ⟨k, hk, -, hF, s', he, hr, -⟩ |
    ⟨k, hk, -, hlt, s', f, a', he, hr, hinv, ha⟩ | ⟨k, hk, hwalk, -⟩
  · -- There are enough frames: the whole range is mapped.
    have hall := hr.allMapped hperm
    exact ⟨fun _ => hle, fun _ => ⟨0, s', he, ⟨fun _ => hall, fun _ => rfl⟩, fun hno =>
      absurd hall hno⟩⟩
  · -- No frame is left for the page `k`, and the call returns 0.
    have hnot : ¬ AllMapped s'.mem d vaddr ((size + 4095) / 4096) perm := by
      intro hall
      obtain ⟨e, hwalk, -⟩ := hall k hk
      rw [hr.not_mapped hrange.inside (Nat.le_refl k) hk (hrange.unmapped k hk)] at hwalk
      cases hwalk
    have hlt := framesNeeded_lt (m := s.mem) (d := d) (v := vaddr) hk
    constructor
    · rintro ⟨ret, s₁, he₁, hret, -⟩
      rw [he] at he₁
      obtain ⟨rfl, rfl⟩ := Prod.mk.inj (Option.some.inj he₁)
      exact absurd (hret.mp rfl) hnot
    · intro hle
      omega
  · -- The page `k` has a frame, but its table has none. The frame stays taken.
    have hnot : ¬ AllMapped s'.mem d vaddr ((size + 4095) / 4096) perm := by
      intro hall
      obtain ⟨e, hwalk, -⟩ := hall k hk
      rw [hr.not_mapped hrange.inside (Nat.le_refl k) hk (hrange.unmapped k hk)] at hwalk
      cases hwalk
    have hmono : framesNeeded s.mem d vaddr (k + 1)
        ≤ framesNeeded s.mem d vaddr ((size + 4095) / 4096) := by
      rcases Nat.lt_or_eq_of_le (Nat.succ_le_of_lt hk) with hlt' | heq
      · exact (framesNeeded_lt hlt').le
      · rw [← heq]
    constructor
    · rintro ⟨ret, s₁, he₁, -, hundo⟩
      rw [he] at he₁
      obtain ⟨rfl, rfl⟩ := Prod.mk.inj (Option.some.inj he₁)
      have hnew : ¬ Taken s.paddrAlloc f := fun hf => ha.fresh ((hr.taken f).mpr (Or.inl hf))
      obtain ⟨i, hi, ht⟩ := (hundo hnot).2.2 f ((ha.taken f).mpr (Or.inr rfl)) hnew
      obtain ⟨d', ho, ht', -⟩ := hinv.table_owner (Or.inr hd) hi ht
      exact absurd (hinv.table_taken ho ht') ha.fresh
    · intro hle
      omega
  · exact absurd (hrange.unmapped k hk) hwalk

/-! ### A small memory -/

/-- Addresses as the linker could fix them. -/
def smallLayout : Layout where
  eText := 0x20000
  memFreeStart := 0x40000
  kernelPageDir := 0x30000
  text := by decide
  aligned := by decide
  data := by decide
  bss := by decide
  image := by decide

/-- A cleared memory with `frames` managed frames. The first one is an empty directory, and the
other ones are free. -/
def oneSpace (frames : Nat) : MemState where
  mem := fun _ => 0#8
  paddrAlloc :=
    { bitmap := { bitCount := frames, bits := fun i => if i = 0 then 1#8 else 0#8 }
      pageSize := memPageSize
      start := memExtStart
      size := frames * memPageSize }

/-- A cleared memory has no page tables. -/
theorem tableAt_clear (d i : Nat) : tableAt (fun _ => 0#8) d i = none := rfl

theorem walk_clear (d vaddr : Nat) : walk (fun _ => 0#8) d vaddr = none := rfl

/-- Only the directory is in use: in a memory of zeros there are no tables and no pages. -/
theorem uses_oneSpace {f : Nat} {r : Role}
    (hu : Uses smallLayout (fun _ => 0#8) [0x100000] [] f r) : r = .dir f ∧ f = 0x100000 := by
  cases r with
  | dir d =>
    obtain ⟨hd, rfl⟩ := hu
    exact ⟨rfl, List.mem_singleton.mp hd⟩
  | table d i => cases hu.2
  | page d i j =>
    obtain ⟨-, -, -, -, v, hv, -⟩ := hu
    cases hv
  | held p => cases hu.1

/-- The invariant holds in the small memory. -/
theorem oneSpace_inv {frames : Nat} (h₁ : 1 ≤ frames) (h₂ : frames ≤ 32512) :
    MemInv smallLayout (oneSpace frames) [0x100000] [] := by
  refine ⟨⟨rfl, rfl, ?_, ?_, ?_⟩, by decide, ⟨?_, ?_⟩, fun _ _ _ _ => rfl, ?_, by simp, by simp⟩
  · show frames * memPageSize % memPageSize = 0
    exact Nat.mul_mod_left frames memPageSize
  · show (frames : Int) = ((frames * memPageSize / memPageSize : Nat) : Int)
    rw [Nat.mul_div_cancel frames (by decide)]
  · show memExtStart + frames * memPageSize ≤ memExtEnd + 1
    unfold memExtStart memPageSize memExtEnd
    omega
  · intro f r hu
    obtain ⟨rfl, rfl⟩ := uses_oneSpace hu
    exact ⟨0, by show (0 : Int) < frames; omega, rfl, by simp [oneSpace, bitmapGetBit]⟩
  · intro f r r' hu hu'
    rw [(uses_oneSpace hu).1, (uses_oneSpace hu').1]
  · intro d hd i h₁ h₂ hp
    cases hp

/-- The first page of the user half is a free range of the small memory. -/
theorem freeRange_clear : FreeRange (fun _ => 0#8) 0x100000 0x80000000 1 where
  aligned := by decide
  user := by decide
  lt := by decide
  inside := by decide
  unmapped := fun k _ => walk_clear _ _

/-- With a frame for the page and one for its table, the call does what it says. -/
theorem reportsFailure_two_frames :
    ReportsFailure (oneSpace 3) 0x100000 0x80000000 4096 (pteP ||| pteU ||| pteW) :=
  have hrange : FreeRange (oneSpace 3).mem 0x100000 0x80000000 ((4096 + 4095) / 4096) :=
    freeRange_clear
  (reportsFailure_iff (oneSpace_inv (by decide) (by decide)) (by decide) (by decide)
    hrange).mpr (by decide +kernel)

/-- With no free frame, the call returns 0 and maps nothing. -/
theorem alloc_without_frames :
    MemInv smallLayout (oneSpace 1) [0x100000] [] ∧
      FreeRange (oneSpace 1).mem 0x100000 0x80000000 1 ∧
      ¬ ReportsFailure (oneSpace 1) 0x100000 0x80000000 4096 (pteP ||| pteU ||| pteW) := by
  refine ⟨oneSpace_inv (by decide) (by decide), freeRange_clear, ?_⟩
  rintro ⟨ret, s', he, hret, -⟩
  rw [memoryAllocForPageDir_no_frame (oneSpace_inv (by decide) (by decide)).shape
    (by decide +kernel) (by decide) (by decide) (by decide) (by decide)] at he
  obtain ⟨rfl, rfl⟩ := Prod.mk.inj (Option.some.inj he)
  obtain ⟨e, hwalk, -⟩ := hret.mp rfl 0 (by decide)
  cases hwalk

end StartKernel
