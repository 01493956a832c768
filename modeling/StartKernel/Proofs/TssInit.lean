import StartKernel.Core.TaskInit
import StartKernel.Proofs.FrameOwnership

/-!
# `StartKernel.Proofs.TssInit`: what `tss_init` takes

* `gdtAllocDesc_cases`: `gdt_alloc_desc` takes the first free descriptor behind the entry 0, or
  there is none.
* `tssInit_cases`: `tss_init` takes a descriptor and two frames, or it takes nothing.
-/

set_option autoImplicit false

namespace StartKernel

open Function (update)

/-! ### The descriptor table -/

variable {gdt : Gdt} {i n : Nat}

/-- The index of a selector that `gdt_alloc_desc` returns. -/
@[simp] theorem selIndex_sel (hi : i < gdtTableSize) :
    selIndex ((i : Int) * segmentDescSize) = i := by
  unfold gdtTableSize at hi
  unfold selIndex segmentDescSize
  rw [toU32_of_fits (by omega) (by omega)]
  omega

/-- The loop of `gdt_alloc_desc` stops at the first free entry, or at the end. -/
theorem gdtScan_spec (gdt : Gdt) (i n : Nat) :
    i ≤ gdtScan gdt i n ∧ gdtScan gdt i n ≤ i + n ∧
      (∀ j, i ≤ j → j < gdtScan gdt i n → (gdt j).attr ≠ 0) ∧
      (gdtScan gdt i n < i + n → (gdt (gdtScan gdt i n)).attr = 0) := by
  induction n generalizing i with
  | zero =>
    show i ≤ i ∧ i ≤ i + 0 ∧ _ ∧ (i < i + 0 → _)
    exact ⟨by omega, by omega, fun j h₁ h₂ => absurd h₂ (by show ¬ j < i; omega), by omega⟩
  | succ n ih =>
    unfold gdtScan
    split
    · rename_i hfree
      exact ⟨by omega, by omega, fun j h₁ h₂ => by omega, fun _ => hfree⟩
    · rename_i htaken
      obtain ⟨h₁, h₂, hall, hend⟩ := ih (i + 1)
      refine ⟨by omega, by omega, fun j hij hj => ?_, fun hlt => hend (by omega)⟩
      by_cases he : j = i
      · exact he ▸ htaken
      · exact hall j (by omega) hj

/-- A free descriptor behind the entry 0. -/
def FreeDesc (gdt : Gdt) : Prop := ∃ i, 1 ≤ i ∧ i < gdtTableSize ∧ (gdt i).attr = 0

/-- The two ways in which `gdt_alloc_desc` ends. -/
theorem gdtAllocDesc_cases (gdt : Gdt) :
    (∃ i, 1 ≤ i ∧ i < gdtTableSize ∧ (gdt i).attr = 0 ∧
      gdtAllocDesc gdt
        = ((i : Int) * segmentDescSize, update gdt i { gdt i with attr := segPPresent })) ∨
    (gdtAllocDesc gdt = (-1, gdt) ∧ ¬ FreeDesc gdt) := by
  obtain ⟨hlow, hhigh, hall, hfree⟩ := gdtScan_spec gdt 1 (gdtTableSize - 1)
  have hsize : 1 + (gdtTableSize - 1) = gdtTableSize := by decide
  rw [hsize] at hhigh hfree
  unfold gdtAllocDesc
  by_cases hend : gdtScan gdt 1 (gdtTableSize - 1) ≥ gdtTableSize
  · right
    refine ⟨if_pos hend, ?_⟩
    rintro ⟨i, h₁, h₂, hi⟩
    exact hall i h₁ (by omega) hi
  · left
    exact ⟨_, hlow, by omega, hfree (by omega), if_neg hend⟩

/-- The descriptor of a task state segment with the base `base`. -/
structure IsTssDesc (d : SegmentDesc) (base : Nat) : Prop where
  attr : d.attr = segPPresent ||| segDpl0 ||| segTypeTss
  base : d.base = base

/-- The three pieces of a base address. -/
theorem base_pieces {base : Nat} (h : base < 2 ^ 32) :
    (base &&& 0xFFFF) + 2 ^ 16 * ((base >>> 16) &&& 0xFF) + 2 ^ 24 * ((base >>> 24) &&& 0xFF)
      = base := by
  rw [show (0xFFFF : Nat) = 2 ^ 16 - 1 by rfl, show (0xFF : Nat) = 2 ^ 8 - 1 by rfl,
    Nat.and_two_pow_sub_one_eq_mod, Nat.and_two_pow_sub_one_eq_mod,
    Nat.and_two_pow_sub_one_eq_mod, Nat.shiftRight_eq_div_pow, Nat.shiftRight_eq_div_pow]
  omega

/-- What `tss_init` writes into a descriptor. -/
theorem segmentDescSet_tss (gdt : Gdt) (hi : i < gdtTableSize) {base : Nat}
    (hbase : base < 2 ^ 32) :
    ∃ d, segmentDescSet gdt ((i : Int) * segmentDescSize) base tssSize
        (segPPresent ||| segDpl0 ||| segTypeTss) = update gdt i d ∧ IsTssDesc d base := by
  unfold segmentDescSet
  rw [selIndex_sel hi]
  exact ⟨_, rfl, rfl, base_pieces hbase⟩

/-- The same over a descriptor that `gdt_alloc_desc` has just taken. -/
theorem segmentDescSet_taken (gdt : Gdt) (hi : i < gdtTableSize) {base : Nat}
    (hbase : base < 2 ^ 32) :
    ∃ d, segmentDescSet (update gdt i { gdt i with attr := segPPresent })
        ((i : Int) * segmentDescSize) base tssSize (segPPresent ||| segDpl0 ||| segTypeTss)
      = update gdt i d ∧ IsTssDesc d base := by
  obtain ⟨d, hset, htss⟩ := segmentDescSet_tss
    (update gdt i { gdt i with attr := segPPresent }) hi hbase
  rw [Function.update_idem] at hset
  exact ⟨d, hset, htss⟩

/-- A selector that `gdt_alloc_desc` returns is not its error. -/
theorem sel_nonneg (i : Nat) : ¬ (i : Int) * segmentDescSize < 0 := by
  unfold segmentDescSize
  omega

/-- A descriptor that was free is free again after `gdt_free_sel`. -/
theorem gdtFreeSel_attr (hi : i < gdtTableSize) (hfree : (gdt i).attr = 0) (d : SegmentDesc)
    (j : Nat) :
    (gdtFreeSel (update gdt i d) ((i : Int) * segmentDescSize) j).attr = (gdt j).attr := by
  unfold gdtFreeSel
  rw [selIndex_sel hi]
  by_cases hj : j = i
  · subst hj
    simp [hfree]
  · simp [hj]

/-! ### `tss_init` -/

variable {T M S : Type} [DecidableEq T] [HasTss T] {L : Layout} {k k' : Kernel T M S} {t : T}
  {live held : List Nat} {p d : Nat}

/-- What a successful `tss_init` took for the task `t`: the descriptor `i`, the kernel stack `p`
and the page directory `d`. -/
structure TssTaken (L : Layout) (k : Kernel T M S) (t : T) (live held : List Nat)
    (k' : Kernel T M S) (i p d : Nat) : Prop where
  sched : ∃ v, k'.sched = k.sched.setTask t v ∧ v.tss.esp0 = p + memPageSize ∧ v.tss.cr3 = d ∧
    v.tssSel = i * segmentDescSize
  low : 1 ≤ i
  high : i < gdtTableSize
  free : (k.gdtTable i).attr = 0
  gdt : ∃ desc, k'.gdtTable = update k.gdtTable i desc ∧ IsTssDesc desc (tssAddr t)
  stack : IsFrame p
  fresh : ¬ Taken k.memory.paddrAlloc p
  dir : IsFrame d
  inv : MemInv L k'.memory (d :: live) (p :: held)
  count : freeCount k.memory.paddrAlloc = freeCount k'.memory.paddrAlloc + 2

/-- What a failed `tss_init` leaves: nothing is taken. -/
structure TssFailed (L : Layout) (k : Kernel T M S) (t : T) (live held : List Nat)
    (k' : Kernel T M S) : Prop where
  sched : ∃ v, k'.sched = k.sched.setTask t v
  attr : ∀ j, (k'.gdtTable j).attr = (k.gdtTable j).attr
  gdt : ∀ j, (k.gdtTable j).attr ≠ 0 → k'.gdtTable j = k.gdtTable j
  inv : MemInv L k'.memory live held
  taken : ∀ g, Taken k'.memory.paddrAlloc g ↔ Taken k.memory.paddrAlloc g

/-- There is a free descriptor, and there are two free frames. -/
def HasRoom (k : Kernel T M S) : Prop :=
  FreeDesc k.gdtTable ∧ 2 ≤ freeCount k.memory.paddrAlloc

omit [HasTss T] in
/-- The last store of a task record counts. -/
@[simp] theorem setTask_setTask (s : Sched T M S) (t : T) (v w : TaskT) :
    (s.setTask t v).setTask t w = s.setTask t w := by
  simp [Sched.setTask]

omit [HasTss T] in
@[simp] theorem setTask_self (s : Sched T M S) (t : T) (v : TaskT) :
    (s.setTask t v).task t = v := by
  simp [Sched.setTask]

/-- A selector of the table is its own `uint16_t`. -/
theorem sel_uint16 (hi : i < gdtTableSize) :
    toU32 ((i : Int) * segmentDescSize) % 2 ^ 16 = i * segmentDescSize := by
  unfold gdtTableSize at hi
  unfold segmentDescSize
  rw [toU32_of_fits (by omega) (by omega)]
  omega

omit [DecidableEq T] [HasTss T] in
/-- The failure path with a kernel stack below the user half: the stack and the descriptor are free
again. -/
theorem tssInitFailed_page (hpos : p ≠ 0) (hlow : p < memoryTaskBase) (tssSel : Int) :
    tssInitFailed k tssSel p = some (-1, { k with
      gdtTable := gdtFreeSel k.gdtTable tssSel
      memory := k.memory.freePage p 1 }) := by
  unfold tssInitFailed memoryFreePage
  simp only [if_pos hlow, if_pos hpos, Option.map_some]

/-- A descriptor was taken and is free again. -/
theorem gdtFreeSel_restores {gdt : Gdt} (hi : i < gdtTableSize) (hfree : (gdt i).attr = 0)
    (desc : SegmentDesc) :
    (∀ j, (gdtFreeSel (update gdt i desc) ((i : Int) * segmentDescSize) j).attr = (gdt j).attr) ∧
      ∀ j, (gdt j).attr ≠ 0 →
        gdtFreeSel (update gdt i desc) ((i : Int) * segmentDescSize) j = gdt j := by
  refine ⟨gdtFreeSel_attr hi hfree desc, fun j hj => ?_⟩
  have hne : j ≠ i := by
    rintro rfl
    exact hj hfree
  unfold gdtFreeSel
  rw [selIndex_sel hi]
  simp [hne]

/-- The two ways in which `tss_init` ends. -/
theorem tssInit_cases (h : MemInv L k.memory live held) (t : T) (flag : Int) (entry esp : Nat) :
    (∃ k' i p d, tssInit L k t flag entry esp = some (0, k') ∧
      TssTaken L k t live held k' i p d) ∨
    (∃ k', tssInit L k t flag entry esp = some (-1, k') ∧ TssFailed L k t live held k' ∧
      ¬ HasRoom k) := by
  have hself : k.sched.setTask t (k.sched.task t) = k.sched := by simp [Sched.setTask]
  unfold tssInit
  rcases gdtAllocDesc_cases k.gdtTable with ⟨i, hlow, hhigh, hfree, hsel⟩ | ⟨hsel, hnone⟩
  swap
  · -- No descriptor is free.
    right
    rw [hsel]
    exact ⟨k, rfl, ⟨⟨_, hself.symm⟩, fun _ => rfl, fun _ _ => rfl, h, fun _ => Iff.rfl⟩,
      fun hroom => hnone hroom.1⟩
  obtain ⟨desc, hdesc, htss⟩ := segmentDescSet_taken k.gdtTable hhigh (HasTss.tssAddr_lt t)
  obtain ⟨hattr, hkeep⟩ := gdtFreeSel_restores hhigh hfree desc
  simp only [hsel, if_neg (sel_nonneg i), Kernel.setTss, memoryAllocPage, hdesc]
  rcases allocPage_cases h.shape with ⟨p, a', hstack, ha⟩ | ⟨hstack, hzero⟩
  swap
  · -- No frame is free for the kernel stack.
    right
    simp only [hstack, if_true]
    refine ⟨_, rfl, ⟨⟨_, rfl⟩, hattr, hkeep, h, fun _ => Iff.rfl⟩, fun hroom => ?_⟩
    have htwo := hroom.2
    omega
  have hp : p ≠ 0 := ha.frame.ne_zero
  have h₁ : MemInv L { k.memory with paddrAlloc := a' } live (p :: held) := h.hold ha
  simp only [hstack, if_neg hp]
  rcases memoryCreateUvm_cases h₁ with ⟨d, a₂, hdir, hd, hinv⟩ | ⟨hdir, hzero⟩
  · left
    have hdpos : d ≠ 0 := hd.frame.ne_zero
    simp only [hdir, if_neg hdpos, setTask_setTask, setTask_self]
    refine ⟨_, i, p, d, rfl, ⟨⟨_, rfl, ?_, ?_, ?_⟩, hlow, hhigh, hfree, ⟨desc, rfl, htss⟩,
      ha.frame, ha.fresh, hd.frame, hinv, ?_⟩⟩
    · show toU32 ((p : Int) + memPageSize) = p + memPageSize
      have hbelow := ha.frame.below
      rw [← Nat.cast_add]
      exact toU32_natCast (by unfold memPageSize; omega)
    · rfl
    · exact sel_uint16 hhigh
    · rw [ha.count, hd.count]
  · -- The kernel stack was the last free frame.
    right
    simp only [hdir, if_true, setTask_setTask, setTask_self]
    rw [tssInitFailed_page hp ha.frame.below_user]
    refine ⟨_, rfl, ⟨⟨_, rfl⟩, hattr, hkeep, ?_, fun g => ?_⟩, fun hroom => ?_⟩
    · have hfreed := h₁.release (p := p) (by simp)
      rwa [List.erase_cons_head] at hfreed
    · have htaken := (addrFreePage_one ha.shape ha.frame).2 g
      refine htaken.trans ?_
      rw [ha.taken g]
      constructor
      · rintro ⟨hg | hg, hne⟩
        · exact hg
        · exact absurd hg hne
      · intro hg
        exact ⟨Or.inl hg, fun he => ha.fresh (he ▸ hg)⟩
    · have htwo := hroom.2
      have hcount := ha.count
      have hzero' : freeCount a' = 0 := hzero
      omega

end StartKernel
