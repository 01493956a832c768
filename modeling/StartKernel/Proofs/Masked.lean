import StartKernel.Core.Programs
import StartKernel.Proofs.Scheduler

/-!
# `StartKernel.Proofs.Masked`: the scheduler is safe from the timer interrupt

The model of the scheduler lets each operation run up to its next switch at once. Here the
operations are cut into their statements, and the timer interrupt can come between any two of them
when the interrupt flag is set.

* `kernel_implements`: with the flag cleared, the code of an operation computes its stretch.
* `irq_protection`: every run with interrupts is a run of the scheduler.
-/

set_option autoImplicit false
set_option linter.unusedSectionVars false

namespace StartKernel

open Masked (Allowed Machine Prog Rel exec mapRest)
open Trace (run)

variable {T M S : Type} [DecidableEq T] [HasIdle T] [DecidableEq M] [DecidableEq S]
  {s : Sched T M S} {a : Call M S} {m : M} {x : S}

/-! ### The code of an operation -/

/-- The end of an operation only restores the flag. -/
theorem exec_leaveCode (a : Call M S) (s : Sched T M S) :
    exec (leaveCode a) s = some (.returned s) := by
  cases a <;> rfl

/-- A dispatch ends the stretch when it switches. -/
theorem exec_taskDispatch (k : Prog (Sched T M S)) (s : Sched T M S) :
    exec (taskDispatchCode k) s = match taskDispatch s with
      | (s, true) => some (.suspended s (.restore false k))
      | (s, false) => exec k s := by
  unfold taskDispatchCode taskDispatch
  simp only [Masked.exec_mask, Masked.exec_read]
  split <;> rfl

/-- A dispatch at the end of an operation. -/
theorem exec_dispatch (a : Call M S) (s : Sched T M S) :
    exec (taskDispatchCode (leaveCode a)) s
      = some (mapRest (restCode a) (dispatchAndLeave s)) := by
  rw [exec_taskDispatch]
  unfold dispatchAndLeave
  rcases taskDispatch s with ⟨s', switched⟩
  cases switched with
  | true => rfl
  | false => exact exec_leaveCode a s'

theorem exec_schedYield (s : Sched T M S) :
    exec (kernelCode .schedYield true) s
      = some (mapRest (restCode .schedYield) (kernelStart .schedYield s)) := by
  show exec (sysSchedYieldCode true) s = some (mapRest _ (sysSchedYield s))
  unfold sysSchedYieldCode sysSchedYield
  simp only [Masked.exec_read]
  split
  · exact exec_dispatch .schedYield _
  · rfl

theorem exec_msleep (ms : Nat) (s : Sched T M S) :
    exec (kernelCode (.msleep ms) true) s
      = some (mapRest (restCode (.msleep ms)) (kernelStart (.msleep ms) s)) :=
  exec_dispatch (.msleep ms) _

theorem exec_mutexLock (m : M) (s : Sched T M S) :
    exec (kernelCode (.mutexLock m) true) s
      = some (mapRest (restCode (.mutexLock m)) (kernelStart (.mutexLock m) s)) := by
  show exec (mutexLockCode m true) s = some (mapRest _ (mutexLock m s))
  unfold mutexLockCode mutexLock
  simp only [Masked.exec_read]
  split
  · simp [Sched.setMutex, exec, mapRest]
  simp only [Masked.exec_read]
  split
  · rfl
  · simp only [Masked.exec_read, Masked.exec_write, taskSetBlock_waitNode, taskSetBlock_mutex]
    exact exec_dispatch (.mutexLock m) _

theorem exec_semWait (x : S) (s : Sched T M S) :
    exec (kernelCode (.semWait x) true) s
      = some (mapRest (restCode (.semWait x)) (kernelStart (.semWait x) s)) := by
  show exec (semWaitCode x true) s = some (mapRest _ (semWait x s))
  unfold semWaitCode semWait
  simp only [Masked.exec_read]
  split
  · rfl
  · simp only [Masked.exec_read, Masked.exec_write, taskSetBlock_waitNode, taskSetBlock_sem]
    exact exec_dispatch (.semWait x) _

/-- A wait list with a nonzero count has a first node. -/
theorem SchedInv.removeFirst (h : SchedInv s) (o : Obj M S)
    (hcount : listCount (s.waitList o) ≠ 0) :
    ∃ w r, listRemoveFirst s.waitNode (s.waitList o) = (some w, r) := by
  obtain ⟨xs, hxs⟩ := h.lists (.wait o)
  have hxs : IsList s.waitNode (s.waitList o) xs := hxs
  cases xs with
  | nil => exact absurd hxs.count hcount
  | cons w xs => exact ⟨w, _, listRemoveFirst_eq hxs⟩

theorem exec_mutexUnlock (m : M) (h : SchedInv s) :
    exec (kernelCode (.mutexUnlock m) true) s
      = some (mapRest (restCode (.mutexUnlock m)) (kernelStart (.mutexUnlock m) s)) := by
  show exec (mutexUnlockCode m true) s = some (mapRest _ (mutexUnlock m s))
  unfold mutexUnlockCode mutexUnlock
  simp only [Masked.exec_read]
  split
  swap
  · rfl
  simp only [Masked.exec_write, Masked.exec_read, Sched.setMutex, Function.update_self]
  split
  swap
  · rfl
  simp only [Masked.exec_write, Masked.exec_read, Function.update_self, Function.update_idem]
  split
  swap
  · rfl
  rename_i hcount
  obtain ⟨w, r, hw⟩ := h.removeFirst (.mutex m) hcount
  have hw : listRemoveFirst s.waitNode (s.mutex m).waitList = (some w, r) := hw
  simp only [exec, Function.update_self, Function.update_idem, hw, Masked.exec_write,
    taskSetReady_mutex]
  exact exec_dispatch (.mutexUnlock m) _

theorem exec_semNotify (x : S) (h : SchedInv s) :
    exec (kernelCode (.semNotify x) true) s
      = some (mapRest (restCode (.semNotify x)) (kernelStart (.semNotify x) s)) := by
  show exec (semNotifyCode x true) s = some (mapRest _ (semNotify x s))
  unfold semNotifyCode semNotify
  simp only [Masked.exec_read]
  split
  swap
  · rfl
  rename_i hcount
  obtain ⟨w, r, hw⟩ := h.removeFirst (.sem x) hcount
  have hw : listRemoveFirst s.waitNode (s.sem x).waitList = (some w, r) := hw
  simp only [exec, hw, Masked.exec_write]
  exact exec_dispatch (.semNotify x) _

/-- The sleep loop of the code is the loop of the model. -/
theorem exec_sleepLoop (k : Prog (Sched T M S)) (n : Nat) (curr : Option T) (s : Sched T M S) :
    exec (sleepLoopCode k n curr) s = exec k (sleepLoop n s curr).1 := by
  induction n generalizing s curr with
  | zero => rfl
  | succ n ih =>
    cases curr with
    | none => rfl
    | some curr =>
      simp only [sleepLoopCode, sleepLoop, sleepStep, Masked.exec_read, Masked.exec_write]
      split
      · simp only [Masked.exec_write]
        exact ih _ _
      · exact ih _ _

theorem exec_sleepPass (a : Call M S) (s : Sched T M S) :
    exec (taskTimeTickSleepCode (leaveCode a)) s
      = some (mapRest (restCode a) (taskTimeTickSleep s)) := by
  unfold taskTimeTickSleepCode taskTimeTickSleep
  rw [Masked.exec_read, exec_sleepLoop]
  exact exec_dispatch a _

theorem exec_timer (s : Sched T M S) :
    exec (kernelCode .timer true) s
      = some (mapRest (restCode .timer) (kernelStart .timer s)) := by
  show exec (doHandlerTimerCode true) s = some (mapRest _ (doHandlerTimer s))
  unfold doHandlerTimerCode doHandlerTimer taskTimeTick
  simp only [Masked.exec_read, Masked.exec_write, Masked.exec_mask]
  split
  · simp only [Masked.exec_write]
    rw [exec_taskDispatch]
    generalize (taskDispatch _ : Sched T M S × Bool) = r
    obtain ⟨s', switched⟩ := r
    cases switched with
    | true => rfl
    | false => exact exec_sleepPass .timer s'
  · exact exec_sleepPass .timer _

/-! ### The current task over a stretch -/

/-- A dispatch that does not switch does nothing. -/
theorem taskDispatch_false {s' : Sched T M S} (h : taskDispatch s = (s', false)) : s' = s := by
  unfold taskDispatch at h
  simp only at h
  split at h
  · exact absurd (Prod.mk.inj h).2.symm Bool.false_ne_true
  · exact (Prod.mk.inj h).1.symm

theorem dispatchAndLeave_curr {s' : Sched T M S} (h : dispatchAndLeave s = .returned s') :
    s'.currTask = s.currTask := by
  unfold dispatchAndLeave at h
  rcases hd : taskDispatch s with ⟨s₁, switched⟩
  rw [hd] at h
  cases switched with
  | true => cases h
  | false =>
    obtain rfl := Suspend.Stretch.returned.inj h
    rw [taskDispatch_false hd]

@[simp] theorem taskSetReady_currTask (s : Sched T M S) (t : T) :
    (taskSetReady s t).currTask = s.currTask := by
  unfold taskSetReady
  split <;> rfl

@[simp] theorem taskSetBlock_currTask (s : Sched T M S) (t : T) :
    (taskSetBlock s t).currTask = s.currTask := by
  unfold taskSetBlock
  split <;> rfl

@[simp] theorem taskSetSleep_currTask (s : Sched T M S) (t : T) (n : Nat) :
    (taskSetSleep s t n).currTask = s.currTask := by
  unfold taskSetSleep
  split <;> rfl

@[simp] theorem sleepStep_currTask (s : Sched T M S) (t : T) :
    (sleepStep s t).currTask = s.currTask := by
  simp only [sleepStep, taskSetWakeup]
  split
  · exact taskSetReady_currTask _ _
  · rfl

theorem sleepLoop_currTask (n : Nat) (s : Sched T M S) (curr : Option T) :
    (sleepLoop n s curr).1.currTask = s.currTask := by
  induction n generalizing s curr with
  | zero => rfl
  | succ n ih =>
    cases curr with
    | none => rfl
    | some curr => exact (ih _ _).trans (sleepStep_currTask s curr)

theorem taskTimeTickSleep_curr {s' : Sched T M S} (h : taskTimeTickSleep s = .returned s') :
    s'.currTask = s.currTask :=
  (dispatchAndLeave_curr h).trans (sleepLoop_currTask _ _ _)

theorem returned_curr {s₁ s' : Sched T M S}
    (h : (.returned s₁ : Suspend.Stretch (Sched T M S) Rest) = .returned s')
    (hcurr : s₁.currTask = s.currTask) : s'.currTask = s.currTask := by
  obtain rfl := Suspend.Stretch.returned.inj h
  exact hcurr

/-- An operation that returns has not changed the current task. -/
theorem kernelStart_curr {s' : Sched T M S} (h : kernelStart a s = .returned s') :
    s'.currTask = s.currTask := by
  cases a with
  | schedYield =>
    have h : sysSchedYield s = .returned s' := h
    unfold sysSchedYield at h
    split at h
    · exact (dispatchAndLeave_curr h).trans (by simp)
    · exact returned_curr h rfl
  | msleep ms => exact (dispatchAndLeave_curr h).trans (by simp)
  | mutexLock m =>
    have h : mutexLock m s = .returned s' := h
    simp only [mutexLock] at h
    split at h
    · exact returned_curr h rfl
    split at h
    · exact returned_curr h rfl
    · exact (dispatchAndLeave_curr h).trans (by simp [Sched.setMutex])
  | mutexUnlock m =>
    have h : mutexUnlock m s = .returned s' := h
    simp only [mutexUnlock] at h
    repeat' split at h
    · exact (dispatchAndLeave_curr h).trans (by simp [Sched.setMutex])
    all_goals exact returned_curr h rfl
  | semWait x =>
    have h : semWait x s = .returned s' := h
    simp only [semWait] at h
    split at h
    · exact returned_curr h rfl
    · exact (dispatchAndLeave_curr h).trans (by simp [Sched.setSem])
  | semNotify x =>
    have h : semNotify x s = .returned s' := h
    simp only [semNotify] at h
    repeat' split at h
    · exact (dispatchAndLeave_curr h).trans (by simp [Sched.setSem])
    all_goals exact returned_curr h rfl
  | timer =>
    have h : doHandlerTimer s = .returned s' := h
    simp only [doHandlerTimer, taskTimeTick] at h
    split at h
    · split at h
      · cases h
      · rename_i hd
        have hcurr := congrArg Sched.currTask (taskDispatch_false hd)
        exact (taskTimeTickSleep_curr h).trans (hcurr.trans (by simp [Sched.setTask]))
    · exact (taskTimeTickSleep_curr h).trans rfl

theorem kernelResume_curr {k : Rest} {s' : Sched T M S} (h : kernelResume k s = .returned s') :
    s'.currTask = s.currTask := by
  cases k with
  | leave => exact returned_curr h rfl
  | sleepPass => exact taskTimeTickSleep_curr h

/-! ### The scheduler -/

/-- An operation that the scheduler's runs allow. -/
def CallOk (a : Call M S) : Prop := SleepFits (.start a)

/-- A step of the scheduler keeps the invariant. -/
theorem SchedInv.allowed {c c' : KConfig T M S} (h : SchedInv c.st)
    (hstep : Allowed kernel CallOk c c') : SchedInv c'.st := by
  obtain ⟨a, ha⟩ := schedInv_iff.mp h
  obtain ⟨l, hl, hok⟩ := hstep
  have hfit : SleepFits l := by
    cases l with
    | start a => exact hok a rfl
    | resume => trivial
  have hrel : Suspend.ConfigRel Matches c ⟨a, c.pend, c.hist⟩ := ⟨ha, rfl, rfl⟩
  obtain ⟨d, -, hd⟩ := kernel_simulates.step hrel hfit hl
  exact schedInv_iff.mpr ⟨d.st, hd.st⟩

/-- With the flag cleared, the code of the operations computes their stretches. -/
theorem kernel_implements : Masked.Implements
    (kernel : Suspend.System (Sched T M S) T (Call M S) Rest (Event T M S)) .timer kernelCode
    restCode CallOk SchedInv where
  start a s h _ := by
    cases a with
    | schedYield => exact exec_schedYield s
    | msleep ms => exact exec_msleep ms s
    | mutexLock m => exact exec_mutexLock m s
    | mutexUnlock m => exact exec_mutexUnlock m h
    | semWait x => exact exec_semWait x s
    | semNotify x => exact exec_semNotify x h
    | timer => exact exec_timer s
  resume a k s _ := by
    cases k with
    | leave => exact exec_leaveCode a s
    | sleepPass => exact exec_sleepPass a s
  startCurr _ _ _ h := kernelStart_curr h
  resumeCurr _ _ _ h := kernelResume_curr h
  may a s s' h := by
    have h : taskCurrent s = taskCurrent s' := h
    show decide _ = decide _
    rw [h]
  irq s := by simp [kernel]
  keeps _ _ h hstep := h.allowed hstep

/-! ### Runs with interrupts -/

/-- The machine of the scheduler. -/
abbrev IrqMachine (T M S : Type) := Machine (Sched T M S) T (Call M S) (Event T M S)

/-- One step of the machine. -/
abbrev irqStep : IrqMachine T M S → Masked.Label (Call M S) → Option (IrqMachine T M S) :=
  Masked.step kernel .timer kernelCode

/-- The machine when the first task runs. Its flag is set, and so are the flags in the `eflags` of
the other tasks. No task is in an operation. -/
structure IrqStart (m : IrqMachine T M S) : Prop where
  inv : SchedInv m.st
  running : m.running = taskCurrent m.st
  flag : m.flag = true
  saved : ∀ t, m.saved t = true
  code : ∀ t, m.code t = []

/-- What the machine `m` is, beside the state `c` of the scheduler. -/
structure Undisturbed (c : KConfig T M S) (m : IrqMachine T M S) : Prop where
  /-- With the flag set, the data and the history are those of the scheduler. -/
  state : m.flag = true → m.st = c.st ∧ m.hist = c.hist ∧ SchedInv m.st
  /-- The task register and `curr_task` agree. -/
  running : m.running = taskCurrent c.st
  /-- With the flag set, the running task is in no operation, or in front of the first step. -/
  outside : m.flag = true → m.code m.running = [] ∨
    ∃ a, m.code m.running = [(a, .mask (kernelCode a))]
  /-- A task that does not run has its flag set exactly when it was not switched out of an
  operation. -/
  saved : ∀ t ≠ m.running, (m.saved t = true ↔ c.pend t = none)

variable {ir : IrqMachine T M S} {ir' : IrqMachine T M S} {ls : List (Masked.Label (Call M S))}

theorem IrqStart.rel (h : IrqStart ir) :
    Rel kernel kernelCode restCode CallOk SchedInv ⟨ir.st, fun _ => none, ir.hist⟩ ir where
  inv := h.inv
  running := h.running.symm
  waits u _ := Or.inl ⟨rfl, h.saved u, Or.inl (h.code u)⟩
  outside _ := ⟨rfl, rfl, rfl, Or.inl (h.code _)⟩
  inside hf := absurd (hf.symm.trans h.flag) Bool.false_ne_true

theorem undisturbed_of_rel {c : KConfig T M S}
    (h : Rel kernel kernelCode restCode CallOk SchedInv c ir) : Undisturbed c ir := by
  refine ⟨fun hf => ?_, h.running.symm, fun hf => ?_, fun t ht => ?_⟩
  · obtain ⟨hst, hhist, -, -⟩ := h.outside hf
    exact ⟨hst, hhist, hst ▸ h.inv⟩
  · obtain ⟨-, -, -, hfresh⟩ := h.outside hf
    rcases hfresh with hnil | ⟨a, -, -, hone⟩
    · exact Or.inl hnil
    · exact Or.inr ⟨a, hone⟩
  · rcases h.waits t ht with ⟨hnone, htrue, -⟩ | ⟨a, k, below, hsome, hfalse, -⟩
    · exact iff_of_true htrue hnone
    · rw [hfalse, hsome]
      exact iff_of_false Bool.false_ne_true (Option.some_ne_none _)

/-- How many switches a rest can still make. -/
def restRank : Rest → Nat
  | .leave => 0
  | .sleepPass => 1

theorem kernelResume_rank {k k' : Rest} {s' : Sched T M S}
    (h : kernelResume k s = .suspended s' k') : restRank k' < restRank k := by
  cases k with
  | leave => cases h
  | sleepPass =>
    have h : dispatchAndLeave _ = _ := h
    unfold dispatchAndLeave at h
    split at h
    · obtain ⟨-, rfl⟩ := Suspend.Stretch.suspended.inj h
      exact Nat.zero_lt_one
    · cases h

/-- Over every run in which the timer interrupt comes wherever the flag lets it through, the machine
does what the scheduler does. Without further interrupts the flag is set after some steps. -/
theorem irq_protection [Fintype T] (h : IrqStart ir) (hcalls : ∀ a, .call a ∈ ls → CallOk a)
    (hrun : run irqStep ir ls = some ir') :
    (∃ ls' c, run (Suspend.step kernel) ⟨ir.st, fun _ => none, ir.hist⟩ ls' = some c ∧
      (∀ l ∈ ls', SleepFits l) ∧ Undisturbed c ir') ∧
    ∃ n ir'', run irqStep ir' (List.replicate n .step) = some ir'' ∧ ir''.flag = true := by
  obtain ⟨ls', c, hc, hls', hrel⟩ :=
    Masked.refines kernel_implements (show CallOk .timer from trivial) hcalls h.rel hrun
  refine ⟨⟨ls', c, hc, fun l hl => ?_, undisturbed_of_rel hrel⟩, ?_⟩
  · cases l with
    | start a => exact hls' a hl
    | resume => trivial
  · have hrank : ∀ k s s' k', (kernel (T := T) (M := M) (S := S)).resume k s = .suspended s' k' →
        restRank k' < restRank k := fun _ _ _ _ hr => kernelResume_rank hr
    obtain ⟨ir'', ⟨n, hn⟩, hflag⟩ := hrel.flag_set kernel_implements hrank
    exact ⟨n, ir'', hn, hflag⟩

/-- Two tasks, at the start. -/
def twoIrqTasks : IrqMachine (Fin 3) Unit Unit where
  st := readySched [1, 2] 1
  flag := true
  running := 1
  saved _ := true
  code _ := []
  hist := []

/-- The first task calls `sem_wait` twice. The timer interrupt comes in front of the first step of
the first call. The second call switches to the other task. -/
def twoIrqRun : List (Masked.Label (Call Unit Unit)) :=
  [.call (.semWait ()), .irq] ++ List.replicate 16 .step ++ [.call (.semWait ())] ++
    List.replicate 11 .step

theorem irq_protection_two_tasks :
    ∃ ir', run irqStep twoIrqTasks twoIrqRun = some ir' ∧
      ((∃ ls' c, run (Suspend.step kernel) ⟨twoIrqTasks.st, fun _ => none, []⟩ ls' = some c ∧
        (∀ l ∈ ls', SleepFits l) ∧ Undisturbed c ir') ∧
      ∃ n ir'', run irqStep ir' (List.replicate n .step) = some ir'' ∧ ir''.flag = true) ∧
      ir'.running = 2 := by
  have hrun : (run irqStep twoIrqTasks twoIrqRun).map (fun m => decide (m.running = 2))
      = some true := by
    decide +kernel
  obtain ⟨m, hm, hd⟩ := Option.map_eq_some_iff.mp hrun
  have hstart : IrqStart twoIrqTasks := by
    refine ⟨?_, by decide, rfl, fun _ => rfl, fun _ => rfl⟩
    exact readySched_inv (by decide) (by decide) 1
  have hcalls : ∀ a, .call a ∈ twoIrqRun → CallOk a := by
    intro a ha
    have ha : a = .semWait () := by simpa [twoIrqRun] using ha
    rw [ha]
    trivial
  exact ⟨m, hm, irq_protection hstart hcalls hm, of_decide_eq_true hd⟩

end StartKernel
