import StartKernel.Cpu.TaskSwitch
import StartKernel.Core.Machine
import StartKernel.Proofs.TaskStart

/-!
# `StartKernel.Proofs.TaskSwitch`: every task has registers of its own

There is one set of registers, and the tasks take turns with it.

* `kernel_tss`: the scheduler leaves the TSS of every task alone.
* `HwInv`: what is in the processor, in the descriptors and in the TSS of every task.
* `task_contexts`: over every run, each task finds its registers as it left them.
-/

set_option autoImplicit false
set_option linter.unusedSectionVars false

namespace StartKernel

open ByteMem
open Function (update)
open Suspend (Stretch step step_cases)
open Trace (run)

variable {T M S : Type} [DecidableEq T] [HasIdle T] [DecidableEq M] [DecidableEq S]
  {s s' : Sched T M S}

/-! ### The scheduler and the TSS -/

/-- The context of a task: its TSS and its selector. -/
def Sched.context (s : Sched T M S) (t : T) : TssT × Nat := ((s.task t).tss, (s.task t).tssSel)

/-- A store into a record that keeps the context of the task. -/
theorem context_setTask (s : Sched T M S) (t : T) {v : TaskT} (htss : v.tss = (s.task t).tss)
    (hsel : v.tssSel = (s.task t).tssSel) : (s.setTask t v).context = s.context := by
  funext u
  unfold Sched.context Sched.setTask
  by_cases hu : u = t
  · subst hu
    simp [htss, hsel]
  · simp [hu]

@[simp] theorem taskSetReady_context (s : Sched T M S) (t : T) :
    (taskSetReady s t).context = s.context := by
  unfold taskSetReady
  split
  · exact context_setTask _ _ rfl rfl
  · rfl

@[simp] theorem taskSetBlock_context (s : Sched T M S) (t : T) :
    (taskSetBlock s t).context = s.context := by
  unfold taskSetBlock
  split <;> rfl

@[simp] theorem taskSetSleep_context (s : Sched T M S) (t : T) (n : Nat) :
    (taskSetSleep s t n).context = s.context := by
  unfold taskSetSleep
  split
  · rfl
  · exact context_setTask s t rfl rfl

theorem taskDispatch_context (s : Sched T M S) : (taskDispatch s).1.context = s.context := by
  simp only [taskDispatch]
  split
  · exact context_setTask _ _ rfl rfl
  · rfl

theorem sleepStep_context (s : Sched T M S) (t : T) : (sleepStep s t).context = s.context := by
  simp only [sleepStep, taskSetWakeup]
  split
  · exact (taskSetReady_context _ _).trans (context_setTask s t rfl rfl)
  · exact context_setTask s t rfl rfl

theorem sleepLoop_context (n : Nat) (s : Sched T M S) (curr : Option T) :
    (sleepLoop n s curr).1.context = s.context := by
  induction n generalizing s curr with
  | zero => rfl
  | succ n ih =>
    cases curr with
    | none => rfl
    | some curr => exact (ih _ _).trans (sleepStep_context s curr)

theorem dispatchAndLeave_context (s : Sched T M S) :
    (dispatchAndLeave s).state.context = s.context := by
  have h := taskDispatch_context s
  unfold dispatchAndLeave
  split <;> rename_i hd <;> rw [hd] at h <;> exact h

theorem taskTimeTickSleep_context (s : Sched T M S) :
    (taskTimeTickSleep s).state.context = s.context :=
  (dispatchAndLeave_context _).trans (sleepLoop_context _ _ _)

theorem sliceDispatch_context (s : Sched T M S) :
    (match taskDispatch s with
      | (s, true) => Stretch.suspended s Rest.sleepPass
      | (s, false) => taskTimeTickSleep s).state.context = s.context := by
  have h := taskDispatch_context s
  rcases hd : taskDispatch s with ⟨s₁, switched⟩
  rw [hd] at h
  cases switched with
  | true => exact h
  | false => exact (taskTimeTickSleep_context s₁).trans h

theorem kernelStart_context (a : Call M S) (s : Sched T M S) :
    (kernelStart a s).state.context = s.context := by
  cases a with
  | schedYield =>
    show (sysSchedYield s).state.context = _
    unfold sysSchedYield
    split
    · exact (dispatchAndLeave_context _).trans (by simp)
    · rfl
  | msleep ms => exact (dispatchAndLeave_context _).trans (by simp)
  | mutexLock m =>
    show (mutexLock m s).state.context = _
    simp only [mutexLock]
    split
    · rfl
    split
    · rfl
    · exact (dispatchAndLeave_context _).trans (taskSetBlock_context s _)
  | mutexUnlock m =>
    show (mutexUnlock m s).state.context = _
    simp only [mutexUnlock]
    repeat' split
    · exact (dispatchAndLeave_context _).trans (taskSetReady_context _ _)
    all_goals rfl
  | semWait x =>
    show (semWait x s).state.context = _
    simp only [semWait]
    split
    · rfl
    · exact (dispatchAndLeave_context _).trans (taskSetBlock_context s _)
  | semNotify x =>
    show (semNotify x s).state.context = _
    simp only [semNotify]
    repeat' split
    · exact (dispatchAndLeave_context _).trans (taskSetReady_context _ _)
    all_goals rfl
  | timer =>
    show (doHandlerTimer s).state.context = _
    simp only [doHandlerTimer, taskTimeTick]
    split
    · -- The slice is over, and the task goes to the end of the ready list.
      refine (sliceDispatch_context _).trans ?_
      rw [taskSetReady_context, taskSetBlock_context, context_setTask, context_setTask] <;> rfl
    · exact (taskTimeTickSleep_context _).trans (context_setTask _ _ rfl rfl)

/-- The scheduler leaves the TSS and the selector of every task alone. -/
theorem kernel_context {c c' : KConfig T M S} {l : KLabel M S} (h : step kernel c l = some c') :
    c'.st.context = c.st.context := by
  rcases step_cases h with ⟨a, -, -, -, rfl⟩ | ⟨a, k, -, -, rfl⟩
  · rw [Suspend.Config.settle_st]
    exact kernelStart_context a c.st
  · rw [Suspend.Config.settle_st]
    cases k with
    | leave => rfl
    | sleepPass => exact taskTimeTickSleep_context c.st

/-! ### The processor and the tasks -/

/-- The scheduler, the descriptor table, the memory and the processor. -/
structure Hw (T M S : Type) where
  cfg : KConfig T M S
  gdt : Gdt
  mem : Mem
  cpu : Cpu

/-- The running code changes the registers, or stores a byte, or the scheduler makes a step. -/
inductive HwLabel (M S : Type)
  | exec (r : Regs)
  | store (a : Nat) (v : BitVec 8)
  | kernel (l : KLabel M S)

/-- One step. Code does not get at selectors that cannot be loaded: the instruction faults. A step
of the scheduler to another task jumps to the TSS of that task. -/
def hwStep (c : Hw T M S) : HwLabel M S → Option (Hw T M S)
  | .exec r =>
    if SegsOk c.gdt r ∧ ∀ w ∈ r.words, w < 2 ^ 32 then
      some { c with cpu := { c.cpu with regs := r } }
    else none
  | .store a v => some { c with mem := store8 c.mem a v }
  | .kernel l =>
    (step kernel c.cfg l).bind fun cfg =>
      let toTask := taskCurrent cfg.st
      if toTask = taskCurrent c.cfg.st then some { c with cfg }
      else (switchToTss c.gdt c.mem c.cpu (cfg.st.task toTask).tssSel).map fun r =>
        { cfg, gdt := r.1, mem := r.2.1, cpu := r.2.2 }

/-- The same with a set of registers for each task. -/
def ownStep (c : KConfig T M S × (T → Regs)) : HwLabel M S → Option (KConfig T M S × (T → Regs))
  | .exec r => some (c.1, update c.2 (taskCurrent c.1.st) r)
  | .store _ _ => some c
  | .kernel l => (step kernel c.1 l).map fun cfg => (cfg, c.2)

variable [HasTss T]

/-- The bytes of a task's TSS. -/
def InTss (a : Nat) : Prop := ∃ t : T, tssAddr t ≤ a ∧ a < tssAddr t + tssSize

/-- The TSS of two tasks lie apart: they are parts of different static objects. -/
def TssApart (T : Type) [HasTss T] : Prop :=
  ∀ t u : T, t ≠ u → tssAddr t + tssSize ≤ tssAddr u ∨ tssAddr u + tssSize ≤ tssAddr t

/-- A store is not into a TSS. -/
def StoreOk : HwLabel M S → Prop
  | .store a _ => ¬ InTss (T := T) a
  | _ => True

/-- The descriptor of a TSS that `tss_init` writes. -/
def tssDesc (base : Nat) : SegmentDesc :=
  segmentDescSet (fun _ => ⟨0, 0, 0, 0, 0⟩) 0 base tssSize
    (segPPresent ||| segDpl0 ||| segTypeTss) 0

/-- What the processor, the descriptors and the TSS hold, when `ctx` are the registers of the tasks.
The registers of the current task are in the processor, and only its TSS is busy. -/
structure HwInv (c : Hw T M S) (ctx : T → Regs) : Prop where
  sel : ∀ t, InTable (c.cfg.st.task t).tssSel ∧ (c.cfg.st.task t).tssSel % 8 = 0
  own : ∀ t u, (c.cfg.st.task t).tssSel = (c.cfg.st.task u).tssSel → t = u
  desc : ∀ t, c.gdt ((c.cfg.st.task t).tssSel / 8) =
    if t = taskCurrent c.cfg.st then (tssDesc (tssAddr t)).setBusy else tssDesc (tssAddr t)
  cr3 : ∀ t, load32 c.mem (tssAddr t + tssCr3) = (c.cfg.st.task t).tss.cr3
  saved : ∀ t ≠ taskCurrent c.cfg.st, loadWords c.mem (tssAddr t + tssRegs) 16 = (ctx t).words
  segs : ∀ t, SegsOk c.gdt (ctx t)
  fits : ∀ t, ∀ w ∈ (ctx t).words, w < 2 ^ 32
  regs : c.cpu.regs = ctx (taskCurrent c.cfg.st)
  pageDir : c.cpu.cr3 = (c.cfg.st.task (taskCurrent c.cfg.st)).tss.cr3
  tr : c.cpu.tr = (c.cfg.st.task (taskCurrent c.cfg.st)).tssSel
  trBase : c.cpu.trBase = tssAddr (taskCurrent c.cfg.st)

variable {c c' : Hw T M S} {ctx : T → Regs} {gdt : Gdt} {r : Regs} {t u : T}

/-- A TSS descriptor as the processor reads it. -/
theorem tssDesc_spec {base : Nat} (h : base < 2 ^ 32) :
    (tssDesc base).base = base ∧ (tssDesc base).IsFreeTss ∧
      (tssDesc base).attr = segPPresent ||| segDpl0 ||| segTypeTss ∧
      (tssDesc base).setBusy.clearBusy = tssDesc base := by
  have hattr : (tssDesc base).attr = segPPresent ||| segDpl0 ||| segTypeTss := rfl
  have hlow : (tssDesc base).limit15_0 = tssSize := rfl
  refine ⟨base_pieces h, ⟨?_, ?_⟩, hattr, ?_⟩
  · rw [hattr]
    decide
  · unfold SegmentDesc.limit SegmentDesc.granular SegmentDesc.limit20
    rw [hattr, hlow]
    decide
  · have hback : ((tssDesc base).attr ||| tssBusy) &&& (2 ^ 16 - 1 - tssBusy)
        = (tssDesc base).attr := by
      rw [hattr]
      decide
    unfold SegmentDesc.setBusy SegmentDesc.clearBusy
    simp only [hback]

/-! ### Segments and TSS descriptors -/

/-- A descriptor of a code or data segment is not the one of a TSS. -/
theorem seg_bit {attr mask v : Nat} (h : attr &&& mask = v)
    (hmask : mask &&& segSNormal = segSNormal) (hv : v &&& segSNormal = segSNormal) :
    attr &&& segSNormal ≠ 0 := by
  have hbit : attr &&& segSNormal = segSNormal := by
    calc attr &&& segSNormal
      _ = attr &&& (mask &&& segSNormal) := by rw [hmask]
      _ = v &&& segSNormal := by rw [← Nat.and_assoc, h]
      _ = segSNormal := hv
  rw [hbit]
  decide

theorem CodeSegOk.normal {sel : Nat} (h : CodeSegOk gdt sel) :
    (gdt (sel / 8)).attr &&& segSNormal ≠ 0 :=
  seg_bit h.2.1 (by decide) (by decide)

theorem StackSegOk.normal {cpl sel : Nat} (h : StackSegOk gdt cpl sel) :
    (gdt (sel / 8)).attr &&& segSNormal ≠ 0 :=
  seg_bit h.2.1 (by decide) (by decide)

theorem SegmentDesc.IsReadable.normal {d : SegmentDesc} (h : d.IsReadable) :
    d.attr &&& segSNormal ≠ 0 := by
  rcases h with hdata | hcode
  · exact seg_bit hdata (by decide) (by decide)
  · exact seg_bit hcode (by decide) (by decide)

/-- The segments do not change with the descriptor of a TSS. -/
theorem SegsOk.setDesc (h : SegsOk gdt r) {i : Nat} (hi : (gdt i).attr &&& segSNormal = 0)
    (d : SegmentDesc) : SegsOk (update gdt i d) r := by
  have hkeep : ∀ sel, (gdt (sel / 8)).attr &&& segSNormal ≠ 0 →
      update gdt i d (sel / 8) = gdt (sel / 8) := by
    intro sel hsel
    refine Function.update_of_ne (fun he => hsel ?_) _ _
    rw [he]
    exact hi
  refine ⟨?_, ?_, fun sel hsel => ?_⟩
  · unfold CodeSegOk
    rw [hkeep _ h.cs.normal]
    exact h.cs
  · unfold StackSegOk
    rw [hkeep _ h.ss.normal]
    exact h.ss
  · rcases h.data sel hsel with hnull | hdata
    · exact Or.inl hnull
    · unfold DataSegOk
      rw [hkeep _ hdata.2.1.normal]
      exact Or.inr hdata

theorem tssDesc_normal (base : Nat) : (tssDesc base).attr &&& segSNormal = 0 := by
  show (segPPresent ||| segDpl0 ||| segTypeTss) &&& segSNormal = 0
  decide

theorem tssDesc_setBusy_normal (base : Nat) : (tssDesc base).setBusy.attr &&& segSNormal = 0 := by
  show ((segPPresent ||| segDpl0 ||| segTypeTss) ||| tssBusy) &&& segSNormal = 0
  decide

/-! ### The steps -/

/-- The descriptors of the TSS are those of the tasks. -/
theorem HwInv.normal (h : HwInv c ctx) (t : T) :
    (c.gdt ((c.cfg.st.task t).tssSel / 8)).attr &&& segSNormal = 0 := by
  rw [h.desc t]
  split
  · exact tssDesc_setBusy_normal _
  · exact tssDesc_normal _

/-- Two tasks have two entries of the table. -/
theorem HwInv.index (h : HwInv c ctx)
    (he : (c.cfg.st.task t).tssSel / 8 = (c.cfg.st.task u).tssSel / 8) : t = u := by
  have ht := (h.sel t).2
  have hu := (h.sel u).2
  exact h.own t u (by omega)

/-- The running code changes the registers. -/
theorem HwInv.exec (h : HwInv c ctx) (hsegs : SegsOk c.gdt r) (hfits : ∀ w ∈ r.words, w < 2 ^ 32) :
    HwInv { c with cpu := { c.cpu with regs := r } } (update ctx (taskCurrent c.cfg.st) r) where
  sel := h.sel
  own := h.own
  desc := h.desc
  cr3 := h.cr3
  saved t ht := by
    rw [Function.update_of_ne ht]
    exact h.saved t ht
  segs t := by
    by_cases ht : t = taskCurrent c.cfg.st
    · rw [ht, Function.update_self]
      exact hsegs
    · rw [Function.update_of_ne ht]
      exact h.segs t
  fits t := by
    by_cases ht : t = taskCurrent c.cfg.st
    · rw [ht, Function.update_self]
      exact hfits
    · rw [Function.update_of_ne ht]
      exact h.fits t
  regs := (Function.update_self (taskCurrent c.cfg.st) r ctx).symm
  pageDir := h.pageDir
  tr := h.tr
  trBase := h.trBase

/-- The running code stores a byte. -/
theorem HwInv.store (h : HwInv c ctx) {a : Nat} (ha : ¬ InTss (T := T) a) (v : BitVec 8) :
    HwInv { c with mem := store8 c.mem a v } ctx := by
  have hkeep : ∀ (t : T) x, tssAddr t ≤ x → x < tssAddr t + tssSize →
      store8 c.mem a v x = c.mem x :=
    fun t x h₁ h₂ => store8_apart c.mem v fun he => ha ⟨t, he ▸ h₁, he ▸ h₂⟩
  refine { h with cr3 := fun t => ?_, saved := fun t ht => ?_ }
  · refine (load32_congr fun x h₁ h₂ => hkeep t x ?_ ?_).trans (h.cr3 t)
    · omega
    · unfold tssCr3 at h₂
      unfold tssSize
      omega
  · refine (loadWords_congr fun x h₁ h₂ => hkeep t x ?_ ?_).trans (h.saved t ht)
    · omega
    · unfold tssRegs at h₂
      unfold tssSize
      omega

/-- The scheduler keeps the current task. -/
theorem HwInv.stay (h : HwInv c ctx) {cfg : KConfig T M S}
    (hctx : cfg.st.context = c.cfg.st.context)
    (hcurr : taskCurrent cfg.st = taskCurrent c.cfg.st) : HwInv { c with cfg } ctx := by
  have htss : ∀ t, (cfg.st.task t).tss = (c.cfg.st.task t).tss ∧
      (cfg.st.task t).tssSel = (c.cfg.st.task t).tssSel := fun t => Prod.mk.inj (congrFun hctx t)
  refine ⟨fun t => ?_, fun t u he => ?_, fun t => ?_, fun t => ?_, fun t ht => ?_, h.segs, h.fits,
    ?_, ?_, ?_, ?_⟩
  · show InTable (cfg.st.task t).tssSel ∧ (cfg.st.task t).tssSel % 8 = 0
    rw [(htss t).2]
    exact h.sel t
  · have he : (cfg.st.task t).tssSel = (cfg.st.task u).tssSel := he
    rw [(htss t).2, (htss u).2] at he
    exact h.own t u he
  · show c.gdt ((cfg.st.task t).tssSel / 8) = if t = taskCurrent cfg.st then _ else _
    rw [(htss t).2, hcurr]
    exact h.desc t
  · show _ = (cfg.st.task t).tss.cr3
    rw [(htss t).1]
    exact h.cr3 t
  · exact h.saved t (hcurr ▸ ht)
  · show _ = ctx (taskCurrent cfg.st)
    rw [hcurr]
    exact h.regs
  · show _ = (cfg.st.task (taskCurrent cfg.st)).tss.cr3
    rw [hcurr, (htss _).1]
    exact h.pageDir
  · show _ = (cfg.st.task (taskCurrent cfg.st)).tssSel
    rw [hcurr, (htss _).2]
    exact h.tr
  · show _ = tssAddr (taskCurrent cfg.st)
    rw [hcurr]
    exact h.trBase

/-- The processor can switch to every other task. It finds its registers and its page directory, and
every task has the registers that it had. -/
theorem HwInv.switch (h : HwInv c ctx) (hapart : TssApart T) {cfg : KConfig T M S}
    (hctx : cfg.st.context = c.cfg.st.context) (hne : taskCurrent cfg.st ≠ taskCurrent c.cfg.st) :
    ∃ gdt mem cpu, switchToTss c.gdt c.mem c.cpu
        (cfg.st.task (taskCurrent cfg.st)).tssSel = some (gdt, mem, cpu) ∧
      HwInv { cfg, gdt, mem, cpu } ctx := by
  have htss : ∀ t, (cfg.st.task t).tss = (c.cfg.st.task t).tss ∧
      (cfg.st.task t).tssSel = (c.cfg.st.task t).tssSel := fun t => Prod.mk.inj (congrFun hctx t)
  obtain ⟨u, hu⟩ : ∃ u, taskCurrent cfg.st = u := ⟨_, rfl⟩
  obtain ⟨t, ht⟩ : ∃ t, taskCurrent c.cfg.st = t := ⟨_, rfl⟩
  rw [hu, ht] at hne
  rw [hu, (htss u).2]
  have hbase : (tssDesc (tssAddr u)).base = tssAddr u := (tssDesc_spec (HasTss.tssAddr_lt u)).1
  have hdesc : c.gdt ((c.cfg.st.task u).tssSel / 8) = tssDesc (tssAddr u) := by
    rw [h.desc u, if_neg (ht ▸ hne)]
  have hold : c.gdt ((c.cfg.st.task t).tssSel / 8) = (tssDesc (tssAddr t)).setBusy := by
    rw [h.desc t, if_pos ht.symm]
  -- The registers go into the TSS of the old task.
  have hmem : ∀ (v : T) x, v ≠ t → tssAddr v ≤ x → x < tssAddr v + tssSize →
      storeWords c.mem (tssAddr t + tssRegs) (ctx t).words x = c.mem x := by
    intro v x hv h₁ h₂
    refine storeWords_apart c.mem ?_
    have hv := hapart v t hv
    rw [Regs.words_length]
    unfold tssRegs tssSize at *
    omega
  have hloads : ∀ v : T, loadWords (storeWords c.mem (tssAddr t + tssRegs) (ctx t).words)
      (tssAddr v + tssRegs) 16 = (ctx v).words := by
    intro v
    by_cases hv : v = t
    · subst hv
      exact loadWords_storeWords c.mem _ (h.fits v)
    · refine (loadWords_congr fun x h₁ h₂ => hmem v x hv ?_ ?_).trans (h.saved v (ht ▸ hv))
      · omega
      · unfold tssRegs at h₂
        unfold tssSize
        omega
  have hcr3 : ∀ v : T, load32 (storeWords c.mem (tssAddr t + tssRegs) (ctx t).words)
      (tssAddr v + tssCr3) = (c.cfg.st.task v).tss.cr3 := by
    intro v
    refine (load32_congr fun x h₁ h₂ => ?_).trans (h.cr3 v)
    by_cases hv : v = t
    · -- `cr3` lies before the registers, and is not saved.
      subst hv
      refine storeWords_apart c.mem (Or.inl ?_)
      unfold tssCr3 at h₂
      unfold tssRegs
      omega
    · refine hmem v x hv ?_ ?_
      · omega
      · unfold tssCr3 at h₂
        unfold tssSize
        omega
  have hindex : ∀ v w : T, v ≠ w →
      (c.cfg.st.task v).tssSel / 8 ≠ (c.cfg.st.task w).tssSel / 8 := fun v w hvw he =>
    hvw (h.index he)
  obtain ⟨mem, hmemEq⟩ :
      ∃ mem, storeWords c.mem (tssAddr t + tssRegs) (ctx t).words = mem := ⟨_, rfl⟩
  obtain ⟨gdt, hgdt⟩ : ∃ gdt, update (update c.gdt ((c.cfg.st.task t).tssSel / 8)
      (tssDesc (tssAddr t))) ((c.cfg.st.task u).tssSel / 8) (tssDesc (tssAddr u)).setBusy = gdt :=
    ⟨_, rfl⟩
  rw [hmemEq] at hloads hcr3
  have hsegs : ∀ v, SegsOk gdt (ctx v) := by
    intro v
    rw [← hgdt]
    refine ((h.segs v).setDesc (h.normal t) _).setDesc ?_ _
    rw [Function.update_of_ne (hindex u t hne)]
    exact h.normal u
  refine ⟨gdt, mem, ⟨ctx u, (c.cfg.st.task u).tss.cr3, (c.cfg.st.task u).tssSel, tssAddr u⟩, ?_, ?_⟩
  · unfold switchToTss
    have hregs : c.cpu.regs = ctx t := ht ▸ h.regs
    have htr : c.cpu.tr = (c.cfg.st.task t).tssSel := ht ▸ h.tr
    have htrBase : c.cpu.trBase = tssAddr t := ht ▸ h.trBase
    rw [hdesc, if_pos ⟨(h.sel u).1, (tssDesc_spec (HasTss.tssAddr_lt u)).2.1⟩]
    simp only [hregs, htr, htrBase, hbase, hold, (tssDesc_spec (HasTss.tssAddr_lt t)).2.2.2, hmemEq,
      hgdt, hloads, hcr3, Regs.ofWords_words]
    rw [if_pos (hsegs u)]
  · refine ⟨fun v => ?_, fun v w he => ?_, fun v => ?_, fun v => ?_, fun v hv => ?_, hsegs, h.fits,
      ?_, ?_, ?_, ?_⟩
    · show InTable (cfg.st.task v).tssSel ∧ (cfg.st.task v).tssSel % 8 = 0
      rw [(htss v).2]
      exact h.sel v
    · have he : (cfg.st.task v).tssSel = (cfg.st.task w).tssSel := he
      rw [(htss v).2, (htss w).2] at he
      exact h.own v w he
    · show gdt ((cfg.st.task v).tssSel / 8) = if v = taskCurrent cfg.st then _ else _
      rw [(htss v).2, hu, ← hgdt]
      by_cases hvu : v = u
      · rw [if_pos hvu, hvu, Function.update_self]
      · rw [if_neg hvu, Function.update_of_ne (hindex v u hvu)]
        by_cases hvt : v = t
        · rw [hvt, Function.update_self]
        · rw [Function.update_of_ne (hindex v t hvt), h.desc v, if_neg (ht ▸ hvt)]
    · show _ = (cfg.st.task v).tss.cr3
      rw [(htss v).1]
      exact hcr3 v
    · exact hloads v
    · show ctx u = ctx (taskCurrent cfg.st)
      rw [hu]
    · show _ = (cfg.st.task (taskCurrent cfg.st)).tss.cr3
      rw [hu, (htss u).1]
    · show _ = (cfg.st.task (taskCurrent cfg.st)).tssSel
      rw [hu, (htss u).2]
    · show tssAddr u = tssAddr (taskCurrent cfg.st)
      rw [hu]

/-! ### Runs -/

/-- One step of the processor is one step of the tasks with registers of their own. -/
theorem HwInv.step (h : HwInv c ctx) (hapart : TssApart T) {l : HwLabel M S}
    (hl : StoreOk (T := T) l) (hstep : hwStep c l = some c') :
    ∃ ctx', ownStep (c.cfg, ctx) l = some (c'.cfg, ctx') ∧ HwInv c' ctx' := by
  cases l with
  | exec r =>
    obtain ⟨⟨hsegs, hfits⟩, hc⟩ := Option.ite_none_right_eq_some.mp hstep
    obtain rfl : _ = c' := Option.some.inj hc
    exact ⟨_, rfl, h.exec hsegs hfits⟩
  | store a v =>
    obtain rfl : _ = c' := Option.some.inj hstep
    exact ⟨_, rfl, h.store hl v⟩
  | kernel l =>
    obtain ⟨cfg, hcfg, hrest⟩ := Option.bind_eq_some_iff.mp hstep
    have hctx := kernel_context hcfg
    have hcfg' : ownStep (c.cfg, ctx) (.kernel l) = some (cfg, ctx) := by
      show (Suspend.step kernel c.cfg l).map _ = _
      rw [hcfg]
      rfl
    by_cases hcurr : taskCurrent cfg.st = taskCurrent c.cfg.st
    · obtain rfl : { c with cfg } = c' := Option.some.inj ((if_pos hcurr).symm.trans hrest)
      exact ⟨ctx, hcfg', h.stay hctx hcurr⟩
    · obtain ⟨gdt, mem, cpu, hswitch, hinv⟩ := h.switch hapart hctx hcurr
      have hrest := (if_neg hcurr).symm.trans hrest
      rw [hswitch] at hrest
      obtain rfl : _ = c' := Option.some.inj hrest
      exact ⟨ctx, hcfg', hinv⟩

/-- The processor does not fault at a switch: what the scheduler can do, the processor can do. -/
theorem HwInv.no_fault (h : HwInv c ctx) (hapart : TssApart T) {l : KLabel M S}
    {cfg : KConfig T M S} (hcfg : Suspend.step kernel c.cfg l = some cfg) :
    ∃ c', hwStep c (.kernel l) = some c' := by
  show ∃ c', (Suspend.step kernel c.cfg l).bind _ = some c'
  rw [hcfg, Option.bind_some]
  by_cases hcurr : taskCurrent cfg.st = taskCurrent c.cfg.st
  · exact ⟨_, if_pos hcurr⟩
  · obtain ⟨gdt, mem, cpu, hswitch, -⟩ := h.switch hapart (kernel_context hcfg) hcurr
    refine ⟨⟨cfg, gdt, mem, cpu⟩, (if_neg hcurr).trans ?_⟩
    rw [hswitch]
    rfl

theorem HwInv.run (h : HwInv c ctx) (hapart : TssApart T) {ls : List (HwLabel M S)}
    (hls : ∀ l ∈ ls, StoreOk (T := T) l) (hrun : Trace.run hwStep c ls = some c') :
    ∃ ctx', Trace.run ownStep (c.cfg, ctx) ls = some (c'.cfg, ctx') ∧ HwInv c' ctx' := by
  induction ls generalizing c ctx with
  | nil =>
    obtain rfl : c = c' := Option.some.inj hrun
    exact ⟨ctx, rfl, h⟩
  | cons l ls ih =>
    obtain ⟨c₁, hstep, hrest⟩ := Option.bind_eq_some_iff.mp hrun
    obtain ⟨ctx₁, hown, h₁⟩ := h.step hapart (hls l List.mem_cons_self) hstep
    obtain ⟨ctx', hrun', h'⟩ := ih h₁ (fun l' hl' => hls l' (List.mem_cons_of_mem l hl')) hrest
    refine ⟨ctx', ?_, h'⟩
    rw [Trace.run, hown]
    exact hrun'

/-! ### The start -/

/-- The registers that `tss_init` puts into a TSS. The others are zero. -/
def TssT.regs (tss : TssT) : Regs :=
  { eip := tss.eip, eflags := tss.eflags, eax := 0, ecx := 0, edx := 0, ebx := 0, esp := tss.esp,
    ebp := 0, esi := 0, edi := 0, es := tss.es, cs := tss.cs, ss := tss.ss, ds := tss.ds,
    fs := tss.fs, gs := tss.gs }

/-- The kernel in front of `write_tr`: every task has a TSS, with its descriptor and its bytes, and
the segments of the tasks can be loaded. The page directory of the first task is in use. -/
structure HwStart (c : Hw T M S) : Prop where
  sel : ∀ t, ∃ i, 1 ≤ i ∧ i < gdtTableSize ∧ (c.cfg.st.task t).tssSel = i * segmentDescSize
  own : ∀ t u, (c.cfg.st.task t).tssSel = (c.cfg.st.task u).tssSel → t = u
  desc : ∀ t, c.gdt ((c.cfg.st.task t).tssSel / 8) = tssDesc (tssAddr t)
  cr3 : ∀ t, load32 c.mem (tssAddr t + tssCr3) = (c.cfg.st.task t).tss.cr3
  saved : ∀ t, loadWords c.mem (tssAddr t + tssRegs) 16 = (c.cfg.st.task t).tss.regs.words
  segs : ∀ t, SegsOk c.gdt (c.cfg.st.task t).tss.regs
  running : SegsOk c.gdt c.cpu.regs ∧ ∀ w ∈ c.cpu.regs.words, w < 2 ^ 32
  pageDir : c.cpu.cr3 = (c.cfg.st.task (taskCurrent c.cfg.st)).tss.cr3

/-- What the tasks find in the registers at first. -/
def firstRegs (c : Hw T M S) : T → Regs :=
  update (fun t => (c.cfg.st.task t).tss.regs) (taskCurrent c.cfg.st) c.cpu.regs

/-- `write_tr` makes the TSS of the first task the one where its registers go. -/
theorem HwStart.writeTr (h : HwStart c) : ∃ gdt cpu,
    writeTr c.gdt c.cpu (c.cfg.st.task (taskCurrent c.cfg.st)).tssSel = some (gdt, cpu) ∧
      HwInv { c with gdt, cpu } (firstRegs c) := by
  obtain ⟨t, ht⟩ : ∃ t, taskCurrent c.cfg.st = t := ⟨_, rfl⟩
  have hsel : ∀ t, InTable (c.cfg.st.task t).tssSel ∧ (c.cfg.st.task t).tssSel % 8 = 0 := by
    intro t
    obtain ⟨i, hlow, hhigh, hi⟩ := h.sel t
    unfold InTable segmentDescSize gdtTableSize at *
    omega
  have hnormal : ∀ t, (c.gdt ((c.cfg.st.task t).tssSel / 8)).attr &&& segSNormal = 0 := by
    intro t
    rw [h.desc t]
    exact tssDesc_normal _
  have hindex : ∀ v, v ≠ taskCurrent c.cfg.st →
      (c.cfg.st.task v).tssSel / 8 ≠ (c.cfg.st.task (taskCurrent c.cfg.st)).tssSel / 8 := by
    intro v hv he
    have hv' := (hsel v).2
    have hc' := (hsel (taskCurrent c.cfg.st)).2
    exact hv (h.own _ _ (by omega))
  have hfree : (c.gdt ((c.cfg.st.task t).tssSel / 8)).IsFreeTss := by
    rw [h.desc t]
    exact (tssDesc_spec (HasTss.tssAddr_lt t)).2.1
  refine ⟨_, _, if_pos ⟨(hsel _).1, ht ▸ hfree⟩, ?_⟩
  refine ⟨hsel, h.own, fun v => ?_, h.cr3, fun v hv => ?_, fun v => ?_, fun v w hw => ?_, ?_,
    h.pageDir, rfl, ?_⟩
  · by_cases hv : v = taskCurrent c.cfg.st
    · show update _ _ _ _ = _
      rw [if_pos hv, hv, Function.update_self, h.desc]
    · show update _ _ _ _ = _
      rw [if_neg hv, Function.update_of_ne (hindex v hv), h.desc]
  · show loadWords c.mem _ 16 = _
    unfold firstRegs
    rw [Function.update_of_ne hv]
    exact h.saved v
  · refine SegsOk.setDesc ?_ (hnormal _) _
    unfold firstRegs
    by_cases hv : v = taskCurrent c.cfg.st
    · rw [hv, Function.update_self]
      exact h.running.1
    · rw [Function.update_of_ne hv]
      exact h.segs v
  · unfold firstRegs at hw
    by_cases hv : v = taskCurrent c.cfg.st
    · rw [hv, Function.update_self] at hw
      exact h.running.2 w hw
    · rw [Function.update_of_ne hv, ← h.saved v] at hw
      exact loadWords_lt _ _ _ w hw
  · show c.cpu.regs = firstRegs c (taskCurrent c.cfg.st)
    unfold firstRegs
    rw [Function.update_self]
  · show (c.gdt _).base = _
    rw [h.desc]
    exact (tssDesc_spec (HasTss.tssAddr_lt _)).1

/-- From `write_tr` on, the tasks share the processor as if each had registers of its own: in every
run the running task finds the registers as it left them, with its own page directory, and no switch
of the scheduler faults. -/
theorem task_contexts (hapart : TssApart T) (h : HwStart c) {ls : List (HwLabel M S)}
    (hls : ∀ l ∈ ls, StoreOk (T := T) l) :
    ∃ gdt cpu, writeTr c.gdt c.cpu (c.cfg.st.task (taskCurrent c.cfg.st)).tssSel = some (gdt, cpu) ∧
      ∀ c', run hwStep { c with gdt, cpu } ls = some c' →
        ∃ ctx, run ownStep (c.cfg, firstRegs c) ls = some (c'.cfg, ctx) ∧
          c'.cpu.regs = ctx (taskCurrent c'.cfg.st) ∧
          c'.cpu.cr3 = (c'.cfg.st.task (taskCurrent c'.cfg.st)).tss.cr3 ∧
          ∀ l cfg, step kernel c'.cfg l = some cfg → ∃ c'', hwStep c' (.kernel l) = some c'' := by
  obtain ⟨gdt, cpu, htr, hinv⟩ := h.writeTr
  refine ⟨gdt, cpu, htr, fun c' hrun => ?_⟩
  obtain ⟨ctx, hown, hinv'⟩ := hinv.run hapart hls hrun
  exact ⟨ctx, hown, hinv'.regs, hinv'.pageDir, fun l cfg hcfg => hinv'.no_fault hapart hcfg⟩

/-- The registers of a task of the kernel that starts at `eip`. -/
def systemTss (eip esp cr3 : Nat) : TssT :=
  { esp0 := 0, ss0 := kernelSelectorDs, cr3, eip, eflags := eflagsDefault ||| eflagsIf, esp,
    es := kernelSelectorDs, cs := kernelSelectorCs, ss := kernelSelectorDs, ds := kernelSelectorDs,
    fs := kernelSelectorDs, gs := kernelSelectorDs, iomap := 0 }

/-- The TSS of the task `t`, and its selector. -/
def withTss (s : Sched (Fin 3) Unit Unit) (t : Fin 3) : Sched (Fin 3) Unit Unit :=
  s.setTask t { s.task t with
    tss := systemTss (0x10000 + t.val) (0x18000 + t.val) (0x101000 + 0x1000 * t.val)
    tssSel := (4 + t.val) * segmentDescSize }

/-- Two tasks and the idle task in front of `write_tr`. -/
def twoTss : Hw (Fin 3) Unit Unit :=
  let st := withTss (withTss (withTss (readySched [1, 2] 1) 0) 1) 2
  let store (m : Mem) (t : Fin 3) : Mem :=
    storeWords m (tssAddr t + tssCr3) ((st.task t).tss.cr3 :: (st.task t).tss.regs.words)
  let desc (gdt : Gdt) (t : Fin 3) : Gdt := update gdt (4 + t.val) (tssDesc (tssAddr t))
  { cfg := ⟨st, fun _ => none, []⟩
    gdt := desc (desc (desc (cpuInit (fun _ => ⟨0, 0, 0, 0, 0⟩) 0x10000) 0) 1) 2
    mem := store (store (store (fun _ => 0) 0) 1) 2
    cpu := ⟨(systemTss 0x10100 0x18000 0).regs, 0x102000, 0, 0⟩ }

/-- The first task sets its registers and gets switched out. The other one sets them too, and
switches back. -/
def twoTssRun : List (HwLabel Unit Unit) :=
  [.exec { (systemTss 0x10200 0x17FF0 0).regs with eax := 7 }, .kernel (.start (.semWait ())),
    .store 0x30000 5, .kernel (.start (.semWait ())),
    .exec { (systemTss 0x10300 0x16FF0 0).regs with eax := 9 },
    .kernel (.start (.semNotify ())), .kernel (.start .schedYield)]

theorem task_contexts_two_tasks : ∃ gdt cpu c' ctx,
    writeTr twoTss.gdt twoTss.cpu (twoTss.cfg.st.task (taskCurrent twoTss.cfg.st)).tssSel
      = some (gdt, cpu) ∧ run hwStep { twoTss with gdt, cpu } twoTssRun = some c' ∧
    run ownStep (twoTss.cfg, firstRegs twoTss) twoTssRun = some (c'.cfg, ctx) ∧
    c'.cpu.regs = ctx (taskCurrent c'.cfg.st) ∧
    taskCurrent c'.cfg.st = 1 ∧ c'.cpu.regs.eax = 7 ∧ c'.cpu.cr3 = 0x102000 := by
  have hend : ((writeTr twoTss.gdt twoTss.cpu
      (twoTss.cfg.st.task (taskCurrent twoTss.cfg.st)).tssSel).bind fun r =>
        (run hwStep { twoTss with gdt := r.1, cpu := r.2 } twoTssRun).map fun c' =>
          (taskCurrent c'.cfg.st, c'.cpu.regs.eax, c'.cpu.cr3)) = some (1, 7, 0x102000) := by
    decide +kernel
  have hsel : ∀ t, (twoTss.cfg.st.task t).tssSel = (4 + t.val) * segmentDescSize := by
    decide +kernel
  have hstart : HwStart twoTss := by
    refine ⟨fun t => ⟨4 + t.val, by omega, ?_, hsel t⟩, ?_, ?_, ?_, ?_, ?_, ?_, ?_⟩
    · unfold gdtTableSize
      omega
    all_goals decide +kernel
  have hapart : TssApart (Fin 3) := by
    unfold TssApart
    decide +kernel
  have hls : ∀ l ∈ twoTssRun, StoreOk (T := Fin 3) l := by
    intro l hl
    cases l with
    | exec r => trivial
    | kernel l => trivial
    | store a v =>
      obtain ⟨rfl, rfl⟩ : a = 0x30000 ∧ v = 5 := by simpa [twoTssRun] using hl
      show ¬ InTss (T := Fin 3) 0x30000
      unfold InTss
      decide +kernel
  obtain ⟨gdt, cpu, htr, hall⟩ := task_contexts hapart hstart hls
  rw [htr, Option.bind_some] at hend
  obtain ⟨c', hrun, hd⟩ := Option.map_eq_some_iff.mp hend
  obtain ⟨ctx, hown, hregs, -⟩ := hall c' hrun
  obtain ⟨hcurr, heax, hcr3⟩ : _ ∧ _ ∧ _ := by simpa using hd
  exact ⟨gdt, cpu, c', ctx, htr, hrun, hown, hregs, hcurr, heax, hcr3⟩

end StartKernel
