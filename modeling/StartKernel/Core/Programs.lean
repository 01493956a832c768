import StartKernel.Core.Machine
import StartKernel.Lib.Masked

/-!
# `StartKernel.Core.Programs`: the scheduler between interrupts

The operations of `core/task.c`, `ipc/mutex.c`, `ipc/sem.c` and `dev/time.c` again, one statement of
the source at a time. `irq_enter_protection` is `mask`: it hands over the interrupt flag and clears
it. `irq_leave_protection` is `restore`, and so is the `iret` of the timer interrupt.
`switch_to_tss` is `switch`: the flag is a part of the task's `eflags`, which the processor keeps in
the TSS.

A call of a queue function is one statement. It runs with the flag cleared, so it makes no
difference into how many steps it is cut. The code of an operation starts behind its
`irq_enter_protection`, and `state` is what that returned.
-/

set_option autoImplicit false

namespace StartKernel

open Masked (Prog)

variable {T M S : Type} [DecidableEq T] [HasIdle T] [DecidableEq M] [DecidableEq S]

/-- `task_dispatch`, and what follows it. -/
def taskDispatchCode (k : Prog (Sched T M S)) : Prog (Sched T M S) :=
  .mask fun state =>
  .read fun s =>
    let toTask := taskNextRun s
    .read fun s =>
      if toTask ≠ s.currTask then
        .write (fun s => { s with currTask := toTask }) <|
        .write (fun s => s.setTask toTask { s.task toTask with state := .running }) <|
        .switch <|
        .restore state k
      else .restore state k

/-- `sys_sched_yield`. -/
def sysSchedYieldCode (state : Bool) : Prog (Sched T M S) :=
  .read fun s =>
    if listCount s.readyList > 1 then
      .read fun s =>
        let currTask := taskCurrent s
        .write (fun s => taskSetBlock s currTask) <|
        .write (fun s => taskSetReady s currTask) <|
        taskDispatchCode <|
        .restore state .ret
    else .restore state .ret

/-- `sys_msleep`. The local variable `ms` is at least `OS_TICK_MS`. -/
def sysMsleepCode (ms : Nat) (state : Bool) : Prog (Sched T M S) :=
  let ms := if ms < OS_TICK_MS then OS_TICK_MS else ms
  .write (fun s => taskSetBlock s s.currTask) <|
  .write (fun s => taskSetSleep s s.currTask ((ms + (OS_TICK_MS - 1)) % 2 ^ 32 / OS_TICK_MS)) <|
  taskDispatchCode <|
  .restore state .ret

/-- `mutex_lock`. -/
def mutexLockCode (m : M) (state : Bool) : Prog (Sched T M S) :=
  .read fun s =>
    let curr := taskCurrent s
    .read fun s =>
      if (s.mutex m).lockedCount = 0 then
        .write (fun s => s.setMutex m { s.mutex m with lockedCount := 1 }) <|
        .write (fun s => s.setMutex m { s.mutex m with owner := some curr }) <|
        .restore state .ret
      else .read fun s =>
        if (s.mutex m).owner = some curr then
          .write (fun s => s.setMutex m
            { s.mutex m with lockedCount := toInt ((s.mutex m).lockedCount + 1) }) <|
          .restore state .ret
        else .read fun s =>
          let curr := taskCurrent s
          .write (fun s => taskSetBlock s curr) <|
          .write (fun s =>
            let r := listInsertLast s.waitNode (s.mutex m).waitList curr
            { s with waitNode := r.1 }.setMutex m { s.mutex m with waitList := r.2 }) <|
          taskDispatchCode <|
          .restore state .ret

/-- `mutex_unlock`. -/
def mutexUnlockCode (m : M) (state : Bool) : Prog (Sched T M S) :=
  .read fun s =>
    let curr := taskCurrent s
    .read fun s =>
      if (s.mutex m).owner = some curr then
        .write (fun s => s.setMutex m
          { s.mutex m with lockedCount := toInt ((s.mutex m).lockedCount - 1) }) <|
        .read fun s =>
          if (s.mutex m).lockedCount = 0 then
            .write (fun s => s.setMutex m { s.mutex m with owner := none }) <|
            .read fun s =>
              if listCount (s.mutex m).waitList ≠ 0 then
                .act (fun s =>
                  let r := listRemoveFirst s.waitNode (s.mutex m).waitList
                  { s with waitNode := r.2.1 }.setMutex m { s.mutex m with waitList := r.2.2 })
                fun s =>
                  match (listRemoveFirst s.waitNode (s.mutex m).waitList).1 with
                  | some task =>
                    .write (fun s => taskSetReady s task) <|
                    .write (fun s => s.setMutex m { s.mutex m with lockedCount := 1 }) <|
                    .write (fun s => s.setMutex m { s.mutex m with owner := some task }) <|
                    taskDispatchCode <|
                    .restore state .ret
                  | none => .restore state .ret -- a nonzero count has a first node
              else .restore state .ret
          else .restore state .ret
      else .restore state .ret

/-- `sem_wait`. -/
def semWaitCode (x : S) (state : Bool) : Prog (Sched T M S) :=
  .read fun s =>
    if (s.sem x).count > 0 then
      .write (fun s => s.setSem x { s.sem x with count := toInt ((s.sem x).count - 1) }) <|
      .restore state .ret
    else .read fun s =>
      let curr := taskCurrent s
      .write (fun s => taskSetBlock s curr) <|
      .write (fun s =>
        let r := listInsertLast s.waitNode (s.sem x).waitList curr
        { s with waitNode := r.1 }.setSem x { s.sem x with waitList := r.2 }) <|
      taskDispatchCode <|
      .restore state .ret

/-- `sem_notify`. -/
def semNotifyCode (x : S) (state : Bool) : Prog (Sched T M S) :=
  .read fun s =>
    if listCount (s.sem x).waitList ≠ 0 then
      .act (fun s =>
        let r := listRemoveFirst s.waitNode (s.sem x).waitList
        { s with waitNode := r.2.1 }.setSem x { s.sem x with waitList := r.2.2 })
      fun s =>
        match (listRemoveFirst s.waitNode (s.sem x).waitList).1 with
        | some task =>
          .write (fun s => taskSetReady s task) <|
          taskDispatchCode <|
          .restore state .ret
        | none => .restore state .ret -- a nonzero count has a first node
    else
      .write (fun s => s.setSem x { s.sem x with count := toInt ((s.sem x).count + 1) }) <|
      .restore state .ret

/-- The sleep loop of `task_time_tick` from the node `curr` on, for at most `fuel` rounds, and what
follows it. -/
def sleepLoopCode (k : Prog (Sched T M S)) : Nat → Option T → Prog (Sched T M S)
  | 0, _ => k
  | _ + 1, none => k
  | fuel + 1, some curr =>
    .read fun s =>
      let next := listNodeNext s.runNode curr
      .write (fun s => s.setTask curr
        { s.task curr with sleepTicks := toInt ((s.task curr).sleepTicks - 1) }) <|
      .read fun s =>
        if (s.task curr).sleepTicks = 0 then
          .write (fun s => taskSetWakeup s curr) <|
          .write (fun s => taskSetReady s curr) <|
          sleepLoopCode k fuel next
        else sleepLoopCode k fuel next

/-- The second half of `task_time_tick`, and what follows it. -/
def taskTimeTickSleepCode (k : Prog (Sched T M S)) : Prog (Sched T M S) :=
  .read fun s =>
    sleepLoopCode (taskDispatchCode k) s.sleepList.count.toNat (listFirst s.sleepList)

/-- `do_handler_timer`. The gate of the interrupt has cleared the flag, and `saved` is what it was
before. -/
def doHandlerTimerCode (saved : Bool) : Prog (Sched T M S) :=
  .write (fun s => { s with sysTick := (s.sysTick + 1) % 2 ^ 32 }) <|
  .read fun s =>
    let currTask := taskCurrent s
    .mask fun state =>
    .write (fun s => s.setTask currTask
      { s.task currTask with sliceTicks := toInt ((s.task currTask).sliceTicks - 1) }) <|
    .read fun s =>
      if (s.task currTask).sliceTicks = 0 then
        .write (fun s => s.setTask currTask
          { s.task currTask with sliceTicks := (s.task currTask).timeTicks }) <|
        .write (fun s => taskSetBlock s currTask) <|
        .write (fun s => taskSetReady s currTask) <|
        taskDispatchCode <|
        taskTimeTickSleepCode <|
        .restore state <|
        .restore saved .ret
      else
        taskTimeTickSleepCode <|
        .restore state <|
        .restore saved .ret

/-- The code of an operation. -/
def kernelCode : Call M S → Bool → Prog (Sched T M S)
  | .schedYield => sysSchedYieldCode
  | .msleep ms => sysMsleepCode ms
  | .mutexLock m => mutexLockCode m
  | .mutexUnlock m => mutexUnlockCode m
  | .semWait x => semWaitCode x
  | .semNotify x => semNotifyCode x
  | .timer => doHandlerTimerCode

/-- What is left of an operation behind its last `task_dispatch`. -/
def leaveCode : Call M S → Prog (Sched T M S)
  | .timer => .restore false (.restore true .ret)
  | _ => .restore true .ret

/-- What is left of a switched-out operation: first the `irq_leave_protection` of
`task_dispatch`. -/
def restCode (a : Call M S) : Rest → Prog (Sched T M S)
  | .leave => .restore false (leaveCode a)
  | .sleepPass => .restore false (taskTimeTickSleepCode (leaveCode a))

end StartKernel
