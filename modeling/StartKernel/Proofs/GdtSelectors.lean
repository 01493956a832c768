import StartKernel.Lib.Trace
import StartKernel.Proofs.GdtDecode

/-!
# `StartKernel.Proofs.GdtSelectors`: a selector has one user

Selectors are handed out, their descriptors are written, and they are given back, in any order.
Only the `attr` of an entry says whether it is free, and the call gate lies across it.

* `SegmentDesc.word_ofWord`: a gate keeps its eight bytes in an entry of the table.
* `cpuInit_table`: after `cpu_init` the entries 1 to 3 are taken, and the ones behind are free.
* `gdtStep_inv`: each operation keeps the invariant.
* `gdt_selectors`: selectors are not shared, over every run.
-/

set_option autoImplicit false

namespace StartKernel

open Function (update)
open Trace (run Meets)

/-- The table, with the selectors that were handed out and not given back. -/
structure GdtSys where
  gdt : Gdt
  allocated : List Int

/-- The operations on the table. -/
inductive GdtLabel
  | allocDesc
  | descSet (selector : Int) (base limit attr : Nat)
  | freeSel (sel : Int)

/-- One operation. -/
def gdtStep (c : GdtSys) : GdtLabel → Option GdtSys
  | .allocDesc =>
    let r := gdtAllocDesc c.gdt
    some ⟨r.2, if r.1 = -1 then c.allocated else r.1 :: c.allocated⟩
  | .descSet selector base limit attr =>
    some { c with gdt := segmentDescSet c.gdt selector base limit attr }
  | .freeSel sel => some ⟨gdtFreeSel c.gdt sel, c.allocated.erase sel⟩

/-- How the operations are called: a descriptor is written or given back while it is handed out,
and what is written into it is present. -/
def GdtCall (c : GdtSys) : GdtLabel → Prop
  | .allocDesc => True
  | .descSet selector _ _ attr => selector ∈ c.allocated ∧ attr &&& segPPresent ≠ 0
  | .freeSel sel => sel ∈ c.allocated

instance (c : GdtSys) (l : GdtLabel) : Decidable (GdtCall c l) :=
  match l with
  | .allocDesc => isTrue trivial
  | .descSet selector _ _ _ => inferInstanceAs (Decidable (selector ∈ c.allocated ∧ _))
  | .freeSel sel => inferInstanceAs (Decidable (sel ∈ c.allocated))

/-- The selector that an operation is called with. -/
def GdtLabel.selector : GdtLabel → Option Int
  | .allocDesc => none
  | .descSet selector _ _ _ => some selector
  | .freeSel sel => some sel

/-- The number of entries in front of those that `gdt_alloc_desc` hands out: the null descriptor,
the two segments of the kernel and the call gate. -/
def gdtKernelCount : Nat := 4

variable {gdt g₀ : Gdt} {c c' : GdtSys} {l : GdtLabel} {ls : List GdtLabel} {h i n : Nat}

/-! ### `cpu_init` -/

/-- The eight bytes of an entry that was made from eight bytes. -/
theorem SegmentDesc.word_ofWord {w : Nat} (hw : w < 2 ^ 64) : (SegmentDesc.ofWord w).word = w := by
  unfold SegmentDesc.ofWord SegmentDesc.word
  show w % 2 ^ 16 + 2 ^ 16 * (w / 2 ^ 16 % 2 ^ 16) + 2 ^ 32 * (w / 2 ^ 32 % 2 ^ 8)
    + 2 ^ 40 * (w / 2 ^ 40 % 2 ^ 16) + 2 ^ 56 * (w / 2 ^ 56 % 2 ^ 8) = w
  omega

/-- The call gate, with the entry point `offset`. -/
def syscallGate (offset : Nat) : GateDesc where
  offset15_0 := offset &&& 0xFFFF
  selector := kernelSelectorCs
  attr := gatePPresent ||| gateDpl3 ||| gateTypeSyscall ||| syscallParamCount
  offset31_16 := (offset >>> 16) &&& 0xFFFF

/-- The call gate as a number. -/
theorem syscallGate_word (offset : Nat) : (syscallGate offset).word
    = offset % 2 ^ 16 + 2 ^ 16 * 8 + 2 ^ 32 * 0xEC05 + 2 ^ 48 * (offset / 2 ^ 16 % 2 ^ 16) := by
  have hattr : gatePPresent ||| gateDpl3 ||| gateTypeSyscall ||| syscallParamCount = 0xEC05 := by
    decide
  unfold syscallGate GateDesc.word
  rw [hattr, show (0xFFFF : Nat) = 2 ^ 16 - 1 by rfl, Nat.and_two_pow_sub_one_eq_mod,
    Nat.and_two_pow_sub_one_eq_mod, Nat.shiftRight_eq_div_pow]
  rfl

/-- The entry that is left when `init_gdt` clears the table. -/
def SegmentDesc.clear : SegmentDesc := ⟨0, 0, 0, 0, 0⟩

/-- The loop of `init_gdt` as one assignment. -/
theorem clearGdt_apply (gdt : Gdt) (hin : i + n ≤ gdtTableSize) (j : Nat) :
    clearGdt gdt i n j = if i ≤ j ∧ j < i + n then SegmentDesc.clear else gdt j := by
  induction n generalizing gdt i with
  | zero =>
    show gdt j = _
    rw [if_neg (by omega)]
  | succ n ih =>
    have hsel : selIndex ((i <<< 3 : Nat) : Int) = i := by
      rw [Nat.shiftLeft_eq, Nat.cast_mul]
      exact selIndex_sel (by omega)
    have hclear : segmentDescSet gdt ((i <<< 3 : Nat) : Int) 0 0 0 = update gdt i .clear := by
      unfold segmentDescSet
      rw [hsel]
      rfl
    show clearGdt (segmentDescSet gdt ((i <<< 3 : Nat) : Int) 0 0 0) (i + 1) n j = _
    rw [hclear, ih _ (by omega)]
    by_cases hj : j = i
    · subst hj
      rw [if_neg (by omega), if_pos (by omega), Function.update_self]
    · rw [Function.update_of_ne hj]
      congr 1
      simp only [eq_iff_iff]
      omega

/-- The writes of `cpu_init` behind its loop. -/
theorem cpuInit_eq (gdt : Gdt) (h : Nat) : ∃ ds cs : SegmentDesc,
    cpuInit gdt h = update (update (update (clearGdt gdt 0 gdtTableSize) 2 ds) 1 cs) 3
      (SegmentDesc.ofWord (syscallGate h).word) ∧ ds.attr ≠ 0 ∧ cs.attr ≠ 0 := by
  have hds : selIndex kernelSelectorDs = 2 := by decide
  have hcs : selIndex kernelSelectorCs = 1 := by decide
  unfold cpuInit initGdt segmentDescSet
  rw [hds, hcs]
  exact ⟨_, _, rfl, by decide, by decide⟩

/-- What `cpu_init` leaves in the table. -/
theorem cpuInit_table (gdt : Gdt) (h : Nat) :
    (∀ i, 1 ≤ i → i < gdtKernelCount → (cpuInit gdt h i).attr ≠ 0) ∧
      (∀ i, gdtKernelCount ≤ i → i < gdtTableSize → (cpuInit gdt h i).attr = 0) ∧
      (cpuInit gdt h 3).word = (syscallGate h).word := by
  obtain ⟨ds, cs, he, hds, hcs⟩ := cpuInit_eq gdt h
  rw [he]
  refine ⟨fun i hlow hhigh => ?_, fun i hlow hhigh => ?_, ?_⟩
  · have hcases : i = 1 ∨ i = 2 ∨ i = 3 := by
      unfold gdtKernelCount at hhigh
      omega
    rcases hcases with rfl | rfl | rfl
    · rw [Function.update_of_ne (by decide), Function.update_self]
      exact hcs
    · rw [Function.update_of_ne (by decide), Function.update_of_ne (by decide),
        Function.update_self]
      exact hds
    · -- The high byte of the gate's own attributes lies in the `attr` of the entry.
      rw [Function.update_self, syscallGate_word]
      show (h % 2 ^ 16 + 2 ^ 16 * 8 + 2 ^ 32 * 0xEC05 + 2 ^ 48 * (h / 2 ^ 16 % 2 ^ 16))
        / 2 ^ 40 % 2 ^ 16 ≠ 0
      omega
  · unfold gdtKernelCount at hlow
    rw [Function.update_of_ne (by omega), Function.update_of_ne (by omega),
      Function.update_of_ne (by omega), clearGdt_apply gdt (by omega) i,
      if_pos ⟨Nat.zero_le i, by omega⟩]
    rfl
  · rw [Function.update_self]
    refine SegmentDesc.word_ofWord ?_
    rw [syscallGate_word]
    omega

/-! ### The invariant -/

/-- A selector that `gdt_alloc_desc` can hand out. -/
def IsSlot (sel : Int) : Prop :=
  ∃ i : Nat, gdtKernelCount ≤ i ∧ i < gdtTableSize ∧ sel = i * segmentDescSize

/-- The invariant: of the entries behind those of the kernel exactly the ones that were handed out
are taken, and the entries of the kernel are as in the table `g₀`. -/
structure GdtInv (g₀ : Gdt) (c : GdtSys) : Prop where
  slot : ∀ sel ∈ c.allocated, IsSlot sel
  nodup : c.allocated.Nodup
  taken : ∀ i, gdtKernelCount ≤ i → i < gdtTableSize →
    ((c.gdt i).attr ≠ 0 ↔ (i : Int) * segmentDescSize ∈ c.allocated)
  kernel : ∀ i < gdtKernelCount, c.gdt i = g₀ i

/-- Two indices with one selector. -/
theorem sel_inj {j : Nat} (he : (i : Int) * segmentDescSize = (j : Int) * segmentDescSize) :
    i = j := by
  unfold segmentDescSize at he
  omega

/-- One entry behind those of the kernel is written. It is taken afterwards exactly when its
selector is handed out then, and the other selectors are handed out as before. -/
theorem GdtInv.set (hinv : GdtInv g₀ c) (hlow : gdtKernelCount ≤ i) {d : SegmentDesc}
    {sels : List Int} (hslot : ∀ sel ∈ sels, IsSlot sel) (hnodup : sels.Nodup)
    (hself : d.attr ≠ 0 ↔ (i : Int) * segmentDescSize ∈ sels)
    (hother : ∀ j : Nat, j ≠ i →
      ((j : Int) * segmentDescSize ∈ sels ↔ (j : Int) * segmentDescSize ∈ c.allocated)) :
    GdtInv g₀ ⟨update c.gdt i d, sels⟩ := by
  refine ⟨hslot, hnodup, fun j hj₁ hj₂ => ?_, fun j hj => ?_⟩
  · show (update c.gdt i d j).attr ≠ 0 ↔ (j : Int) * segmentDescSize ∈ sels
    by_cases hji : j = i
    · rw [hji, Function.update_self]
      exact hself
    · rw [Function.update_of_ne hji, hother j hji]
      exact hinv.taken j hj₁ hj₂
  · show update c.gdt i d j = g₀ j
    rw [Function.update_of_ne (by omega)]
    exact hinv.kernel j hj

/-- An operation that writes one entry that is handed out before and after. -/
theorem GdtInv.write (hinv : GdtInv g₀ c) {sel : Int} (hsel : sel ∈ c.allocated) {d : SegmentDesc}
    (hd : d.attr ≠ 0) : GdtInv g₀ { c with gdt := update c.gdt (selIndex sel) d } := by
  obtain ⟨i, hlow, hhigh, rfl⟩ := hinv.slot sel hsel
  rw [selIndex_sel hhigh]
  exact hinv.set hlow hinv.slot hinv.nodup (iff_of_true hd hsel) fun _ _ => Iff.rfl

/-- The entry that `gdt_alloc_desc` takes is none of the kernel's. -/
theorem GdtInv.behind (hinv : GdtInv g₀ c)
    (h₀ : ∀ i, 1 ≤ i → i < gdtKernelCount → (g₀ i).attr ≠ 0) (hlow : 1 ≤ i)
    (hfree : (c.gdt i).attr = 0) : gdtKernelCount ≤ i := by
  by_contra hlt
  refine h₀ i hlow (by omega) ?_
  rw [← hinv.kernel i (by omega)]
  exact hfree

/-- A selector is handed out. -/
theorem GdtInv.alloc (hinv : GdtInv g₀ c) (hlow : gdtKernelCount ≤ i) (hhigh : i < gdtTableSize)
    (hfree : (c.gdt i).attr = 0) {d : SegmentDesc} (hd : d.attr ≠ 0) :
    GdtInv g₀ ⟨update c.gdt i d, (i : Int) * segmentDescSize :: c.allocated⟩ := by
  have hnew : (i : Int) * segmentDescSize ∉ c.allocated := fun hin =>
    (hinv.taken i hlow hhigh).mpr hin hfree
  refine hinv.set hlow (fun sel hsel => ?_) (List.nodup_cons.mpr ⟨hnew, hinv.nodup⟩)
    (iff_of_true hd List.mem_cons_self) fun j hji => ?_
  · rcases List.mem_cons.mp hsel with rfl | hold
    · exact ⟨i, hlow, hhigh, rfl⟩
    · exact hinv.slot sel hold
  · -- Another index has another selector.
    rw [List.mem_cons]
    exact or_iff_right fun he => hji (sel_inj he)

/-- A selector is given back. -/
theorem GdtInv.free (hinv : GdtInv g₀ c) {sel : Int} (hsel : sel ∈ c.allocated) :
    GdtInv g₀ ⟨gdtFreeSel c.gdt sel, c.allocated.erase sel⟩ := by
  obtain ⟨i, hlow, hhigh, rfl⟩ := hinv.slot sel hsel
  unfold gdtFreeSel
  rw [selIndex_sel hhigh]
  refine hinv.set hlow (fun s hs => hinv.slot s (List.mem_of_mem_erase hs)) (hinv.nodup.erase _)
    ?_ fun j hji => ?_
  · rw [hinv.nodup.mem_erase_iff]
    exact iff_of_false (fun hne => hne rfl) fun hin => hin.1 rfl
  · rw [hinv.nodup.mem_erase_iff]
    exact and_iff_right fun he => hji (sel_inj he)

/-- Each operation keeps the invariant. -/
theorem gdtStep_inv (h₀ : ∀ i, 1 ≤ i → i < gdtKernelCount → (g₀ i).attr ≠ 0)
    (hinv : GdtInv g₀ c) (hcall : GdtCall c l) (he : gdtStep c l = some c') : GdtInv g₀ c' := by
  cases l with
  | allocDesc =>
    obtain rfl := Option.some.inj he
    rcases gdtAllocDesc_cases c.gdt with ⟨i, hlow, hhigh, hfree, hsel⟩ | ⟨hsel, -⟩
    · have hpos : ¬ (i : Int) * segmentDescSize = -1 := by
        unfold segmentDescSize
        omega
      simp only [hsel, if_neg hpos]
      have hpresent : segPPresent ≠ 0 := by decide
      exact hinv.alloc (hinv.behind h₀ hlow hfree) hhigh hfree hpresent
    · simp only [hsel, if_true]
      exact hinv
  | descSet selector base limit attr =>
    obtain ⟨hsel, hpresent⟩ := hcall
    obtain rfl := Option.some.inj he
    obtain ⟨d, hset, -, -, hattr⟩ := segmentDescSet_entry c.gdt selector base limit attr
    simp only [hset]
    refine hinv.write hsel fun hzero => hpresent ?_
    -- The bit that marks a descriptor as present keeps the `attr` apart from zero.
    rw [hattr] at hzero
    rw [descUnits_zero (Nat.or_eq_zero_iff.mp hzero).1, Nat.zero_and]
  | freeSel sel =>
    obtain rfl := Option.some.inj he
    exact hinv.free hcall

/-- An operation writes at most the entry of its own selector, or one that was free. -/
theorem gdtStep_keeps (hinv : GdtInv g₀ c) (hcall : GdtCall c l) (he : gdtStep c l = some c')
    {sel : Int} (hsel : sel ∈ c.allocated) (hother : l.selector ≠ some sel) :
    c'.gdt (selIndex sel) = c.gdt (selIndex sel) := by
  obtain ⟨j, hlow, hhigh, rfl⟩ := hinv.slot sel hsel
  rw [selIndex_sel hhigh]
  cases l with
  | allocDesc =>
    obtain rfl := Option.some.inj he
    rcases gdtAllocDesc_cases c.gdt with ⟨i, -, -, hfree, hr⟩ | ⟨hr, -⟩
    · simp only [hr]
      refine Function.update_of_ne ?_ _ _
      rintro rfl
      exact (hinv.taken j hlow hhigh).mpr hsel hfree
    · simp only [hr]
  | descSet selector base limit attr =>
    obtain rfl := Option.some.inj he
    obtain ⟨i, -, hi, rfl⟩ := hinv.slot selector hcall.1
    refine Function.update_of_ne ?_ _ _
    rw [selIndex_sel hi]
    rintro rfl
    exact hother rfl
  | freeSel sel =>
    obtain rfl := Option.some.inj he
    obtain ⟨i, -, hi, rfl⟩ := hinv.slot sel hcall
    refine Function.update_of_ne ?_ _ _
    rw [selIndex_sel hi]
    rintro rfl
    exact hother rfl

/-- What `gdt_alloc_desc` returns in a state of the invariant. -/
theorem gdtAllocDesc_fresh (h₀ : ∀ i, 1 ≤ i → i < gdtKernelCount → (g₀ i).attr ≠ 0)
    (hinv : GdtInv g₀ c) :
    ((gdtAllocDesc c.gdt).1 ≠ -1 →
      IsSlot (gdtAllocDesc c.gdt).1 ∧ (gdtAllocDesc c.gdt).1 ∉ c.allocated) ∧
    ((gdtAllocDesc c.gdt).1 = -1 ↔ ∀ sel, IsSlot sel → sel ∈ c.allocated) := by
  rcases gdtAllocDesc_cases c.gdt with ⟨i, hlow, hhigh, hfree, hsel⟩ | ⟨hsel, hnone⟩
  · have hbehind := hinv.behind h₀ hlow hfree
    have hnew : (i : Int) * segmentDescSize ∉ c.allocated := fun hin =>
      (hinv.taken i hbehind hhigh).mpr hin hfree
    have hslot : IsSlot ((i : Int) * segmentDescSize) := ⟨i, hbehind, hhigh, rfl⟩
    simp only [hsel]
    refine ⟨fun _ => ⟨hslot, hnew⟩, fun hneg => ?_, fun hall => absurd (hall _ hslot) hnew⟩
    unfold segmentDescSize at hneg
    omega
  · simp only [hsel]
    refine ⟨fun hne => absurd rfl hne, fun _ sel hslot => ?_, fun _ => trivial⟩
    obtain ⟨i, hlow, hhigh, rfl⟩ := hslot
    refine (hinv.taken i hlow hhigh).mp fun hfree => hnone ⟨i, ?_, hhigh, hfree⟩
    unfold gdtKernelCount at hlow
    omega

/-- A selector behind the kernel's entries is not one of the kernel's. -/
theorem IsSlot.ne_kernel {sel : Int} (hslot : IsSlot sel) :
    sel ≠ 0 ∧ sel ≠ kernelSelectorCs ∧ sel ≠ kernelSelectorDs ∧ sel ≠ selectorSyscall := by
  obtain ⟨i, hlow, -, rfl⟩ := hslot
  unfold gdtKernelCount at hlow
  unfold segmentDescSize kernelSelectorCs kernelSelectorDs selectorSyscall
  refine ⟨?_, ?_, ?_, ?_⟩ <;> omega

/-- Selectors have one user. After `cpu_init` and any sequence of operations, in which descriptors
are only written and given back while they are handed out: `gdt_alloc_desc` returns a selector that
is not handed out and that is none of the kernel's, or -1, exactly when all entries behind the
kernel's are handed out; one more operation keeps the descriptors of all other selectors that are
handed out; and the kernel's own descriptors and its call gate are as `cpu_init` wrote them. -/
theorem gdt_selectors (gdt : Gdt) (h : Nat)
    (hcalls : Meets gdtStep GdtCall ⟨cpuInit gdt h, []⟩ ls)
    (hrun : run gdtStep ⟨cpuInit gdt h, []⟩ ls = some c) :
    ((gdtAllocDesc c.gdt).1 ≠ -1 → (gdtAllocDesc c.gdt).1 ∉ c.allocated ∧
      (gdtAllocDesc c.gdt).1 ≠ 0 ∧ (gdtAllocDesc c.gdt).1 ≠ kernelSelectorCs ∧
      (gdtAllocDesc c.gdt).1 ≠ kernelSelectorDs ∧ (gdtAllocDesc c.gdt).1 ≠ selectorSyscall) ∧
    ((gdtAllocDesc c.gdt).1 = -1 ↔ ∀ i : Nat, gdtKernelCount ≤ i → i < gdtTableSize →
      (i : Int) * segmentDescSize ∈ c.allocated) ∧
    (∀ l c', GdtCall c l → gdtStep c l = some c' → ∀ sel ∈ c.allocated,
      l.selector ≠ some sel → c'.gdt (selIndex sel) = c.gdt (selIndex sel)) ∧
    (∀ i < gdtKernelCount, c.gdt i = cpuInit gdt h i) ∧
    (c.gdt (selIndex selectorSyscall)).word = (syscallGate h).word := by
  obtain ⟨h₀, hfree, hgate⟩ := cpuInit_table gdt h
  have hinit : GdtInv (cpuInit gdt h) ⟨cpuInit gdt h, []⟩ := by
    refine ⟨fun sel hsel => absurd hsel List.not_mem_nil, List.nodup_nil, fun i hi₁ hi₂ => ?_,
      fun _ _ => rfl⟩
    exact iff_of_false (fun hne => hne (hfree i hi₁ hi₂)) List.not_mem_nil
  have hinv : GdtInv (cpuInit gdt h) c :=
    Trace.run_invariant (I := fun c => GdtInv (cpuInit gdt h) c)
      (fun _ _ _ hI hl hs => gdtStep_inv h₀ hI hl hs) hinit hcalls hrun
  obtain ⟨hfresh, hfull⟩ := gdtAllocDesc_fresh h₀ hinv
  refine ⟨fun hne => ?_, hfull.trans ?_, fun l c' hcall hstep sel hsel hother => ?_,
    hinv.kernel, ?_⟩
  · obtain ⟨hslot, hnew⟩ := hfresh hne
    exact ⟨hnew, hslot.ne_kernel⟩
  · constructor
    · exact fun hall i h₁ h₂ => hall _ ⟨i, h₁, h₂, rfl⟩
    · rintro hall sel ⟨i, h₁, h₂, rfl⟩
      exact hall i h₁ h₂
  · exact gdtStep_keeps hinv hcall hstep hsel hother
  · have hindex : selIndex selectorSyscall = 3 := by decide
    rw [hindex, hinv.kernel 3 (by decide)]
    exact hgate

/-- Calls of the three functions: of two selectors one is written and the other one is given back
and handed out again. -/
def gdtCalls : List GdtLabel :=
  [.allocDesc, .allocDesc, .descSet 32 0x5000 0x67 0x89, .freeSel 40, .allocDesc]

/-- From a cleared table, the selectors 32 and 40 are handed out in the end, and the next one is
another one. -/
theorem gdt_selectors_second : ∃ c,
    run gdtStep ⟨cpuInit (fun _ => .clear) 0x10000, []⟩ gdtCalls = some c ∧
      c.allocated = [40, 32] ∧
      ((gdtAllocDesc c.gdt).1 ≠ -1 → (gdtAllocDesc c.gdt).1 ∉ c.allocated) ∧
      (∀ c', gdtStep c (.freeSel 40) = some c' → c'.gdt (selIndex 32) = c.gdt (selIndex 32)) ∧
      ∀ i < gdtKernelCount, c.gdt i = cpuInit (fun _ => .clear) 0x10000 i := by
  have hcalls : Meets gdtStep GdtCall ⟨cpuInit (fun _ => .clear) 0x10000, []⟩ gdtCalls := by
    decide +kernel
  have hlist : ((run gdtStep ⟨cpuInit (fun _ => .clear) 0x10000, []⟩ gdtCalls).map
      GdtSys.allocated) = some [40, 32] := by
    decide +kernel
  obtain ⟨c, hrun, halloc⟩ := Option.map_eq_some_iff.mp hlist
  obtain ⟨hfresh, -, hkeeps, hkernel, -⟩ := gdt_selectors _ 0x10000 hcalls hrun
  refine ⟨c, hrun, halloc, fun hne => (hfresh hne).1, fun c' hstep => ?_, hkernel⟩
  refine hkeeps (.freeSel 40) c' ?_ hstep 32 ?_ (by decide)
  · show (40 : Int) ∈ c.allocated
    rw [halloc]
    decide
  · rw [halloc]
    decide

end StartKernel
