import StartKernel.Proofs.GdtSelectors
import StartKernel.Proofs.TaskInit
import StartKernel.Proofs.TaskSwitch

/-!
# `StartKernel.Proofs.SwitchStart`: the tasks in front of the first switch

The processor can switch between tasks once each of them has a descriptor, a TSS and segments that
can be loaded. `cpu_init`, `task_manager_init` and a successful `task_init` for every task lead
there.

* `tssInit_success`: what a successful `tss_init` writes, field by field.
* `taskSegments_appSegments`: the segments of the kernel and of the applications can be loaded.
* `Started.step`: one more task.
* `meets_tssMade`: the calls that find room get contexts.
* `hwStart_taskInit`: the state in front of `write_tr`.
-/

set_option autoImplicit false

namespace StartKernel

open Function (update)
open ByteMem (load32 loadWords)
open Trace (run Meets)

variable {T M S : Type} [DecidableEq T] [HasTss T] {L : Layout} {k k' k₁ : Kernel T M S}
  {t : T} {q : List T} {gdt : Gdt} {i : Nat}

/-! ### `tss_init` -/

/-- The descriptor does not depend on the table. -/
theorem segmentDescSet_tssDesc (gdt : Gdt) (hi : i < gdtTableSize) (base : Nat) :
    segmentDescSet gdt ((i : Int) * segmentDescSize) base tssSize
      (segPPresent ||| segDpl0 ||| segTypeTss) = update gdt i (tssDesc base) := by
  unfold segmentDescSet
  rw [selIndex_sel hi]
  rfl

omit [DecidableEq T] [HasTss T] in
/-- The failure path returns -1. -/
theorem tssInitFailed_ne_zero {tssSel : Int} {kernelStack : Nat} :
    tssInitFailed k tssSel kernelStack ≠ some (0, k') := by
  intro he
  unfold tssInitFailed at he
  split at he
  · obtain ⟨m, -, he⟩ := Option.map_eq_some_iff.mp he
    cases (Prod.mk.inj he).1
  · cases (Prod.mk.inj (Option.some.inj he)).1

/-- What a successful `tss_init` writes: the descriptor `i`, and a record with the kernel stack `p`
and the page directory `d`. -/
theorem tssInit_success {flag : Int} {entry esp : Nat}
    (he : tssInit L k t flag entry esp = some (0, k')) :
    ∃ i p d, 1 ≤ i ∧ i < gdtTableSize ∧ (k.gdtTable i).attr = 0 ∧
      k'.gdtTable = update k.gdtTable i (tssDesc (tssAddr t)) ∧
      k'.sched = k.sched.setTask t { k.sched.task t with
        tss := { tssFields k.sched .zero flag entry esp p with cr3 := d }
        tssSel := i * segmentDescSize } := by
  unfold tssInit at he
  rcases gdtAllocDesc_cases k.gdtTable with ⟨i, hlow, hhigh, hfree, hsel⟩ | ⟨hsel, -⟩
  swap
  · -- Without a descriptor the result is -1.
    rw [hsel] at he
    cases he
  simp only [hsel, if_neg (sel_nonneg i), Kernel.setTss, segmentDescSet_tssDesc _ hhigh,
    Function.update_idem, setTask_setTask, setTask_self] at he
  split at he
  · exact absurd he tssInitFailed_ne_zero
  split at he
  · exact absurd he tssInitFailed_ne_zero
  · obtain ⟨-, rfl⟩ := Prod.mk.inj (Option.some.inj he)
    refine ⟨i, (memoryAllocPage k.memory).1,
      (memoryCreateUvm L (memoryAllocPage k.memory).2).1, hlow, hhigh, hfree, rfl, ?_⟩
    rw [sel_uint16 hhigh]
    rfl

/-! ### The segments -/

/-- Registers with the selectors `code` and `data`. -/
def segRegs (code data : Nat) : Regs :=
  { eip := 0, eflags := 0, eax := 0, ecx := 0, edx := 0, ebx := 0, esp := 0, ebp := 0, esi := 0,
    edi := 0, es := data, cs := code, ss := data, ds := data, fs := data, gs := data }

/-- The segments of the kernel and those of the applications can be loaded. -/
structure TaskSegments (k : Kernel T M S) : Prop where
  system : SegsOk k.gdtTable (segRegs kernelSelectorCs kernelSelectorDs)
  app : SegsOk k.gdtTable
    (segRegs (toU32 k.sched.appCodeSel ||| segCpl3) (toU32 k.sched.appDataSel ||| segCpl3))

omit [DecidableEq T] [HasTss T] in
/-- The first registers of a task have the segments of the kernel, or those of the applications. -/
theorem TaskSegments.segs (h : TaskSegments k) (flag : Int) (entry esp p d : Nat) :
    SegsOk k.gdtTable
      (TssT.regs { tssFields k.sched .zero flag entry esp p with cr3 := d }) := by
  by_cases hflag : toU32 flag &&& taskFlagSystem ≠ 0
  · simp only [tssFields, TssT.regs, if_pos hflag]
    exact ⟨h.system.cs, h.system.ss, h.system.data⟩
  · simp only [tssFields, TssT.regs, if_neg hflag]
    exact ⟨h.app.cs, h.app.ss, h.app.data⟩

omit [DecidableEq T] [HasTss T] in
/-- The segments do not change with a descriptor that was free, or with the tasks. -/
theorem TaskSegments.setDesc (h : TaskSegments k) (hfree : (k.gdtTable i).attr = 0)
    {d : SegmentDesc} (hgdt : k'.gdtTable = update k.gdtTable i d)
    (hcode : k'.sched.appCodeSel = k.sched.appCodeSel)
    (hdata : k'.sched.appDataSel = k.sched.appDataSel) : TaskSegments k' := by
  have hnormal : (k.gdtTable i).attr &&& segSNormal = 0 := by
    rw [hfree]
    rfl
  constructor
  · rw [hgdt]
    exact h.system.setDesc hnormal d
  · rw [hgdt, hcode, hdata]
    exact h.app.setDesc hnormal d

/-- A code and a data segment of 4 GB with the privilege `p` can be loaded. -/
theorem segsOk_flat {p code data : Nat} (hp : p = 0 ∨ p = 3)
    (hcode : InTable code ∧ code % 4 = p) (hdata : InTable data ∧ data % 4 = p)
    (hcs : (gdt (code / 8)).attr = 0xCF9A ||| p <<< 5)
    (hds : (gdt (data / 8)).attr = 0xCF92 ||| p <<< 5) : SegsOk gdt (segRegs code data) := by
  have hdpl : (gdt (code / 8)).dpl = p ∧ (gdt (data / 8)).dpl = p := by
    unfold SegmentDesc.dpl
    rw [hcs, hds]
    rcases hp with rfl | rfl <;> decide
  refine ⟨⟨hcode.1, ?_, hdpl.1.trans hcode.2.symm⟩,
    ⟨hdata.1, ?_, hdpl.2.trans hcode.2.symm, hdata.2.trans hcode.2.symm⟩, ?_⟩
  · show (gdt (code / 8)).attr &&& _ = _
    rw [hcs]
    rcases hp with rfl | rfl <;> decide
  · show (gdt (data / 8)).attr &&& _ = _
    rw [hds]
    rcases hp with rfl | rfl <;> decide
  · intro sel hsel
    obtain rfl : sel = data := by simpa [segRegs] using hsel
    refine Or.inr ⟨hdata.1, Or.inl ?_, ?_, ?_⟩
    · rw [hds]
      rcases hp with rfl | rfl <;> decide
    · rw [hdpl.2]
      exact hcode.2.le
    · rw [hdpl.2]
      exact hdata.2.le

/-- `gdt_alloc_desc` takes the first free descriptor. -/
theorem gdtAllocDesc_first (hlow : 1 ≤ i) (hhigh : i < gdtTableSize) (hfree : (gdt i).attr = 0)
    (htaken : ∀ j, 1 ≤ j → j < i → (gdt j).attr ≠ 0) :
    ∃ d, gdtAllocDesc gdt = ((i : Int) * segmentDescSize, update gdt i d) := by
  obtain ⟨h₁, h₂, hall, hend⟩ := gdtScan_spec gdt 1 (gdtTableSize - 1)
  have hscan : gdtScan gdt 1 (gdtTableSize - 1) = i := by
    rcases Nat.lt_trichotomy (gdtScan gdt 1 (gdtTableSize - 1)) i with hlt | heq | hgt
    · exact absurd (hend (by omega)) (htaken _ h₁ hlt)
    · exact heq
    · exact absurd hfree (hall i hlow hgt)
  unfold gdtAllocDesc
  rw [hscan, if_neg (by omega)]
  exact ⟨_, rfl⟩

/-- The descriptor of a segment of 4 GB. -/
def flatDesc (attr : Nat) : SegmentDesc :=
  segmentDescSet (fun _ => .clear) 0 0x00000000 0xFFFFFFFF attr 0

/-- The descriptor that is written into an entry that was just taken. -/
theorem segmentDescSet_flat (hi : i < gdtTableSize) (d : SegmentDesc) (attr : Nat) :
    segmentDescSet (update gdt i d) ((i : Int) * segmentDescSize) 0x00000000 0xFFFFFFFF attr
      = update gdt i (flatDesc attr) := by
  unfold segmentDescSet
  rw [selIndex_sel hi]
  exact Function.update_idem _ _ _

/-- Two descriptors are taken and written, behind those of the kernel. -/
theorem gdtAllocDesc_second (htaken : ∀ i, 1 ≤ i → i < gdtKernelCount → (gdt i).attr ≠ 0)
    (hfree : ∀ i, gdtKernelCount ≤ i → i < gdtTableSize → (gdt i).attr = 0) {d : SegmentDesc}
    (hd : d.attr ≠ 0) :
    ∃ d', gdtAllocDesc (update gdt 4 d)
      = (((5 : Nat) : Int) * segmentDescSize, update (update gdt 4 d) 5 d') := by
  refine gdtAllocDesc_first (by decide) (by decide) ?_ fun j hlow hhigh => ?_
  · rw [Function.update_of_ne (by decide)]
    exact hfree 5 (by decide) (by decide)
  · by_cases hj : j = 4
    · rw [hj, Function.update_self]
      exact hd
    · rw [Function.update_of_ne hj]
      exact htaken j hlow (by unfold gdtKernelCount; omega)

omit [DecidableEq T] [HasTss T] in
/-- `task_manager_init` takes the first two descriptors behind those of the kernel. -/
theorem appSegments_eq (htaken : ∀ i, 1 ≤ i → i < gdtKernelCount → (k.gdtTable i).attr ≠ 0)
    (hfree : ∀ i, gdtKernelCount ≤ i → i < gdtTableSize → (k.gdtTable i).attr = 0) :
    appSegments k = { k with
      gdtTable := update (update k.gdtTable 4 (flatDesc 0x40F2)) 5 (flatDesc 0x40FA)
      sched := { k.sched with
        appDataSel := ((4 : Nat) : Int) * segmentDescSize
        appCodeSel := ((5 : Nat) : Int) * segmentDescSize } } := by
  obtain ⟨d₁, hfour⟩ := gdtAllocDesc_first (i := 4) (by decide) (by decide)
    (hfree 4 (by decide) (by decide)) htaken
  obtain ⟨d₂, hfive⟩ := gdtAllocDesc_second htaken hfree (d := flatDesc 0x40F2) (by decide)
  have hdata : segPPresent ||| segDpl3 ||| segSNormal ||| segTypeData ||| segTypeRw ||| segD
      = 0x40F2 := by decide
  have hcode : segPPresent ||| segDpl3 ||| segSNormal ||| segTypeCode ||| segTypeRw ||| segD
      = 0x40FA := by decide
  unfold appSegments
  rw [hfour, hdata, hcode]
  simp only [segmentDescSet_flat (show 4 < gdtTableSize by decide)]
  rw [hfive]
  simp only [segmentDescSet_flat (show 5 < gdtTableSize by decide)]

/-- The attributes of the segments of the kernel. -/
theorem cpuInit_segments (gdt : Gdt) (h : Nat) :
    (cpuInit gdt h 1).attr = 0xCF9A ∧ (cpuInit gdt h 2).attr = 0xCF92 := by
  have hds : selIndex kernelSelectorDs = 2 := by decide
  have hcs : selIndex kernelSelectorCs = 1 := by decide
  unfold cpuInit initGdt
  -- The two entries are written behind the loop that clears the table.
  generalize clearGdt gdt 0 gdtTableSize = g
  unfold segmentDescSet gateDescSet
  rw [hds, hcs]
  exact ⟨rfl, rfl⟩

omit [DecidableEq T] [HasTss T] in
/-- The segments of the kernel and of the applications, behind `task_manager_init`. -/
theorem taskSegments_appSegments {h : Nat} (hgdt : k.gdtTable = cpuInit gdt h) :
    TaskSegments (appSegments k) := by
  obtain ⟨htaken, hfree, -⟩ := cpuInit_table gdt h
  obtain ⟨hcs, hds⟩ := cpuInit_segments gdt h
  have hcode : toU32 (((5 : Nat) : Int) * segmentDescSize) ||| segCpl3 = 5 * 8 + 3 := by decide
  have hdata : toU32 (((4 : Nat) : Int) * segmentDescSize) ||| segCpl3 = 4 * 8 + 3 := by decide
  rw [← hgdt] at htaken hfree hcs hds
  rw [appSegments_eq htaken hfree]
  constructor
  · refine segsOk_flat (Or.inl rfl) (by decide) (by decide) ?_ ?_
    · exact hcs
    · exact hds
  · dsimp only
    rw [hcode, hdata]
    exact segsOk_flat (Or.inr rfl) (by decide) (by decide) rfl rfl

/-! ### One more task -/

/-- The tasks of `q` have descriptors of their own, and registers that can be loaded. -/
structure Started (k : Kernel T M S) (q : List T) : Prop where
  segs : TaskSegments k
  ctx : ∀ t ∈ q, ∃ i, 1 ≤ i ∧ i < gdtTableSize ∧
    (k.sched.task t).tssSel = i * segmentDescSize ∧ k.gdtTable i = tssDesc (tssAddr t) ∧
    SegsOk k.gdtTable (k.sched.task t).tss.regs
  own : ∀ t ∈ q, ∀ u ∈ q, (k.sched.task t).tssSel = (k.sched.task u).tssSel → t = u

variable [HasIdle T]

/-- The call of `task_init` gets a context for the task. -/
def TssMade (L : Layout) (k : Kernel T M S) (c : InitCall T) : Prop :=
  ∃ k₁, tssInit L k c.task c.flag c.entry c.esp = some (0, k₁)

omit [HasTss T] in
/-- The selectors of the applications are not changed behind `tss_init`. -/
theorem taskInitRest_appSel (s : Sched T M S) (t : T) :
    (taskInitRest s t).appCodeSel = s.appCodeSel ∧
      (taskInitRest s t).appDataSel = s.appDataSel := by
  unfold taskInitRest taskSetReady
  dsimp only
  split <;> exact ⟨rfl, rfl⟩

/-- What the call `c` of `task_init` wrote: the descriptor `i`, and the record of its task with the
kernel stack `p` and the page directory `d`. -/
structure InitWrites (k : Kernel T M S) (c : InitCall T) (k' : Kernel T M S) (i p d : Nat) :
    Prop where
  low : 1 ≤ i
  high : i < gdtTableSize
  free : (k.gdtTable i).attr = 0
  gdt : k'.gdtTable = update k.gdtTable i (tssDesc (tssAddr c.task))
  other : ∀ u ≠ c.task, k'.sched.task u = k.sched.task u
  tss : (k'.sched.task c.task).tss
    = { tssFields k.sched .zero c.flag c.entry c.esp p with cr3 := d }
  sel : (k'.sched.task c.task).tssSel = i * segmentDescSize
  code : k'.sched.appCodeSel = k.sched.appCodeSel
  data : k'.sched.appDataSel = k.sched.appDataSel

/-- What a call that gets a context writes. -/
theorem TssMade.writes {c : InitCall T} (hmade : TssMade L k c) (he : initStep L k c = some k') :
    ∃ i p d, InitWrites k c k' i p d := by
  obtain ⟨k₁, htss⟩ := hmade
  obtain ⟨i, p, d, hlow, hhigh, hfree, hgdt, hsched⟩ := tssInit_success htss
  obtain rfl : { k₁ with sched := taskInitRest k₁.sched c.task } = k' := by
    unfold initStep taskInit at he
    rw [htss] at he
    exact Option.some.inj he
  obtain ⟨htssNew, hselNew⟩ := taskInitRest_tss k₁.sched c.task
  obtain ⟨hcode, hdata⟩ := taskInitRest_appSel k₁.sched c.task
  refine ⟨i, p, d, hlow, hhigh, hfree, hgdt, fun u hu => ?_, htssNew.trans ?_, hselNew.trans ?_,
    hcode.trans ?_, hdata.trans ?_⟩
  · refine (taskInitRest_task_other _ hu).trans ?_
    rw [hsched]
    exact Function.update_of_ne hu _ _
  · rw [hsched, setTask_self]
  · rw [hsched, setTask_self]
  · rw [hsched]
    rfl
  · rw [hsched]
    rfl

omit [DecidableEq T] [HasIdle T] in
/-- A descriptor that is in use is not the one that was free. -/
theorem Started.used {i : Nat} (h : Started k q) (hfree : (k.gdtTable i).attr = 0) :
    ∀ u ∈ q, (k.sched.task u).tssSel ≠ i * segmentDescSize := by
  intro u hu hsel
  obtain ⟨j, -, -, hj, hdesc, -⟩ := h.ctx u hu
  obtain rfl : j = i := by
    unfold segmentDescSize at hsel hj
    omega
  rw [hdesc] at hfree
  cases hfree

/-- A task that is new gets a descriptor that was free. -/
theorem Started.step {c : InitCall T} (h : Started k q) (hnew : c.task ∉ q)
    (hmade : TssMade L k c) (he : initStep L k c = some k') : Started k' (q ++ [c.task]) := by
  obtain ⟨i, p, d, hw⟩ := hmade.writes he
  have hother : ∀ u ∈ q, k'.sched.task u = k.sched.task u := fun u hu =>
    hw.other u fun he => hnew (he ▸ hu)
  have hused := h.used hw.free
  have hnormal : (k.gdtTable i).attr &&& segSNormal = 0 := by
    rw [hw.free]
    rfl
  refine ⟨h.segs.setDesc hw.free hw.gdt hw.code hw.data, fun u hu => ?_, fun u hu v hv hsel => ?_⟩
  · rcases List.mem_append.mp hu with hu | hu
    · -- An older task keeps its descriptor and its segments.
      obtain ⟨j, hlow, hhigh, hj, hdesc, hregs⟩ := h.ctx u hu
      have hji : j ≠ i := fun he => hused u hu (he ▸ hj)
      rw [hother u hu, hw.gdt]
      exact ⟨j, hlow, hhigh, hj, (Function.update_of_ne hji _ _).trans hdesc,
        hregs.setDesc hnormal _⟩
    · obtain rfl := List.mem_singleton.mp hu
      rw [hw.tss, hw.sel, hw.gdt]
      exact ⟨i, hw.low, hw.high, rfl, Function.update_self _ _ _,
        (h.segs.segs c.flag c.entry c.esp p d).setDesc hnormal _⟩
  · -- Two tasks with one selector: both old, one of them new, or both new.
    rcases List.mem_append.mp hu with hu | hu <;> rcases List.mem_append.mp hv with hv | hv
    · rw [hother u hu, hother v hv] at hsel
      exact h.own u hu v hv hsel
    · obtain rfl := List.mem_singleton.mp hv
      rw [hother u hu, hw.sel] at hsel
      exact absurd hsel (hused u hu)
    · obtain rfl := List.mem_singleton.mp hu
      rw [hother v hv, hw.sel] at hsel
      exact absurd hsel.symm (hused v hv)
    · exact (List.mem_singleton.mp hu).trans (List.mem_singleton.mp hv).symm

/-- Calls for different tasks. -/
theorem Started.run {cs : List (InitCall T)} (h : Started k q)
    (hnodup : (q ++ cs.map InitCall.task).Nodup) (hmade : Meets (initStep L) (TssMade L) k cs)
    (hrun : run (initStep L) k cs = some k') : Started k' (q ++ cs.map InitCall.task) := by
  induction cs generalizing k q with
  | nil =>
    obtain rfl : k = k' := Option.some.inj hrun
    rw [List.map_nil, List.append_nil]
    exact h
  | cons c cs ih =>
    obtain ⟨k₁, hstep, hrest⟩ := Option.bind_eq_some_iff.mp hrun
    rw [List.map_cons, List.append_cons] at hnodup ⊢
    have hnew : c.task ∉ q := by
      have hfront := (List.nodup_append.mp hnodup).1
      rw [List.nodup_append_comm] at hfront
      exact (List.nodup_cons.mp hfront).1
    exact ih (h.step hnew hmade.1 hstep) hnodup (hmade.2 k₁ hstep) hrest

/-- Calls that find a free descriptor and two free frames get contexts. -/
theorem meets_tssMade {cs : List (InitCall T)} (h : InitInv L k)
    (hnew : Meets (initStep L) NewTask k cs)
    (hroom : Meets (initStep L) (fun k _ => HasRoom k) k cs) :
    Meets (initStep L) (TssMade L) k cs := by
  refine hroom.imp (hnew.and hroom) h (fun k c hinv hroom => ?_)
    fun _ _ _ hinv hcall he => taskInit_step hinv hcall.1 hcall.2 he
  obtain ⟨⟨q, -, live, held, hmem, -⟩, -⟩ := hinv
  rcases tssInit_cases hmem c.task c.flag c.entry c.esp with
    ⟨k₁, i, p, d, htss, -⟩ | ⟨_, -, -, hno⟩
  · exact ⟨k₁, htss⟩
  · exact absurd hroom hno

/-- The state in front of `write_tr`: after `cpu_init`, `task_manager_init` and calls of
`task_init` that gave every task a context. The memory holds what the records of the tasks hold,
and the first task runs with its own page directory. -/
theorem hwStart_taskInit {h : Nat} {cs : List (InitCall T)} {c : Hw T M S}
    (hgdt : k.gdtTable = cpuInit gdt h) (hnodup : (cs.map InitCall.task).Nodup)
    (hall : ∀ t, t ∈ cs.map InitCall.task)
    (hmade : Meets (initStep L) (TssMade L) (appSegments k) cs)
    (hrun : run (initStep L) (appSegments k) cs = some k')
    (hctx : c.cfg.st.context = k'.sched.context) (htable : c.gdt = k'.gdtTable)
    (hcr3 : ∀ t, load32 c.mem (tssAddr t + tssCr3) = (c.cfg.st.task t).tss.cr3)
    (hsaved : ∀ t,
      loadWords c.mem (tssAddr t + tssRegs) 16 = (c.cfg.st.task t).tss.regs.words)
    (hrunning : SegsOk c.gdt c.cpu.regs ∧ ∀ w ∈ c.cpu.regs.words, w < 2 ^ 32)
    (hpageDir : c.cpu.cr3 = (c.cfg.st.task (taskCurrent c.cfg.st)).tss.cr3) : HwStart c := by
  have hempty : Started (appSegments k) ([] : List T) :=
    ⟨taskSegments_appSegments hgdt, fun _ ht => absurd ht List.not_mem_nil,
      fun _ ht => absurd ht List.not_mem_nil⟩
  have hstarted := hempty.run hnodup hmade hrun
  have htss : ∀ t, (c.cfg.st.task t).tss = (k'.sched.task t).tss ∧
      (c.cfg.st.task t).tssSel = (k'.sched.task t).tssSel := fun t => Prod.mk.inj (congrFun hctx t)
  refine ⟨fun t => ?_, fun t u hsel => ?_, fun t => ?_, hcr3, hsaved, fun t => ?_, hrunning,
    hpageDir⟩
  · obtain ⟨i, hlow, hhigh, hi, -⟩ := hstarted.ctx t (hall t)
    exact ⟨i, hlow, hhigh, (htss t).2.trans hi⟩
  · rw [(htss t).2, (htss u).2] at hsel
    exact hstarted.own t (hall t) u (hall u) hsel
  · obtain ⟨i, -, -, hi, hdesc, -⟩ := hstarted.ctx t (hall t)
    have hindex : i * segmentDescSize / 8 = i := Nat.mul_div_cancel i (by decide)
    rw [htable, (htss t).2, hi, hindex]
    exact hdesc
  · obtain ⟨-, -, -, -, -, hsegs⟩ := hstarted.ctx t (hall t)
    rw [htable, (htss t).1]
    exact hsegs

end StartKernel
