import StartKernel.Core.Sched
import StartKernel.Lib.Suspend

/-!
# `StartKernel.Core.Task`: the scheduler of `core/task.c`

The queue functions, `task_dispatch`, `sys_sched_yield`, `sys_msleep` and the two halves of
`task_time_tick`. Each runs between `irq_enter_protection` and `irq_leave_protection`, so
nothing interleaves with it except at a task switch.

`taskDispatch` also returns whether it switched. A function that goes on after a switch is
suspended there: it ends in a `Stretch`, with the rest it still has to run. `Rest.leave` is
the bare `irq_leave_protection`, and `Rest.sleepPass` is the second half of
`task_time_tick`.
-/

set_option autoImplicit false

namespace StartKernel

open Suspend (Stretch)

/-- `OS_TICK_MS`. -/
def OS_TICK_MS : Nat := 10

/-- What a switched-out function has still to run. -/
inductive Rest where
  | leave
  | sleepPass
  deriving DecidableEq, Repr

variable {T M S : Type} [DecidableEq T]

/-- `task_current`. -/
def taskCurrent (s : Sched T M S) : T := s.currTask

/-- `task_set_sleep`: nothing happens for zero ticks. -/
def taskSetSleep (s : Sched T M S) (task : T) (ticks : Nat) : Sched T M S :=
  if ticks = 0 then s
  else
    let s := s.setTask task { s.task task with sleepTicks := toInt ticks, state := .sleep }
    let r := listInsertLast s.runNode s.sleepList task
    { s with runNode := r.1, sleepList := r.2 }

/-- `task_set_wakeup`. -/
def taskSetWakeup (s : Sched T M S) (task : T) : Sched T M S :=
  let r := listRemove s.runNode s.sleepList task
  { s with runNode := r.1, sleepList := r.2 }

variable [HasIdle T]

/-- `task_set_ready`. -/
def taskSetReady (s : Sched T M S) (task : T) : Sched T M S :=
  if task ≠ idleTask then
    let r := listInsertLast s.runNode s.readyList task
    let s := { s with runNode := r.1, readyList := r.2 }
    s.setTask task { s.task task with state := .ready }
  else s

/-- `task_set_block`. -/
def taskSetBlock (s : Sched T M S) (task : T) : Sched T M S :=
  if task ≠ idleTask then
    let r := listRemove s.runNode s.readyList task
    { s with runNode := r.1, readyList := r.2 }
  else s

/-- `task_next_run`. A list with a nonzero count has a first node. -/
def taskNextRun (s : Sched T M S) : T :=
  if listCount s.readyList = 0 then idleTask
  else (listFirst s.readyList).getD idleTask

/-- `task_dispatch`. The second component tells whether `task_switch_from_to` left the
caller. -/
def taskDispatch (s : Sched T M S) : Sched T M S × Bool :=
  let toTask := taskNextRun s
  if toTask ≠ s.currTask then
    let s := { s with currTask := toTask }
    (s.setTask toTask { s.task toTask with state := .running }, true)
  else (s, false)

/-- A `task_dispatch` with nothing behind it but `irq_leave_protection`. -/
def dispatchAndLeave (s : Sched T M S) : Stretch (Sched T M S) Rest :=
  match taskDispatch s with
  | (s, true) => .suspended s .leave
  | (s, false) => .returned s

/-- `sys_sched_yield`. -/
def sysSchedYield (s : Sched T M S) : Stretch (Sched T M S) Rest :=
  if listCount s.readyList > 1 then
    let currTask := taskCurrent s
    let s := taskSetBlock s currTask
    let s := taskSetReady s currTask
    dispatchAndLeave s
  else .returned s

/-- `sys_msleep`. The rounding up to ticks is 32-bit arithmetic. -/
def sysMsleep (ms : Nat) (s : Sched T M S) : Stretch (Sched T M S) Rest :=
  let ms := if ms < OS_TICK_MS then OS_TICK_MS else ms
  let s' := taskSetBlock s s.currTask
  let s' := taskSetSleep s' s'.currTask ((ms + (OS_TICK_MS - 1)) % 2 ^ 32 / OS_TICK_MS)
  dispatchAndLeave s'

/-- The body of the sleep loop of `task_time_tick` for one task. -/
def sleepStep (s : Sched T M S) (task : T) : Sched T M S :=
  let s := s.setTask task
    { s.task task with sleepTicks := toInt ((s.task task).sleepTicks - 1) }
  if (s.task task).sleepTicks = 0 then
    let s := taskSetWakeup s task
    taskSetReady s task
  else s

/-- The sleep loop of `task_time_tick`, for at most `fuel` rounds. It reads `next` before
it edits the list. The second component is `curr` at the end: null when the loop is
over. -/
def sleepLoop : Nat → Sched T M S → Option T → Sched T M S × Option T
  | 0, s, curr => (s, curr)
  | _ + 1, s, none => (s, none)
  | fuel + 1, s, some curr =>
    let next := listNodeNext s.runNode curr
    sleepLoop fuel (sleepStep s curr) next

/-- The second half of `task_time_tick`: the sleep loop and the last `task_dispatch`. The
loop visits each node of the sleep list once, so its count is enough fuel. -/
def taskTimeTickSleep (s : Sched T M S) : Stretch (Sched T M S) Rest :=
  let s := (sleepLoop s.sleepList.count.toNat s (listFirst s.sleepList)).1
  dispatchAndLeave s

/-- `task_time_tick`. When the time slice is over, the first `task_dispatch` may switch, and
the sleep loop waits until the task is dispatched again. -/
def taskTimeTick (s : Sched T M S) : Stretch (Sched T M S) Rest :=
  let currTask := taskCurrent s
  let s := s.setTask currTask
    { s.task currTask with sliceTicks := toInt ((s.task currTask).sliceTicks - 1) }
  if (s.task currTask).sliceTicks = 0 then
    let s := s.setTask currTask
      { s.task currTask with sliceTicks := (s.task currTask).timeTicks }
    let s := taskSetBlock s currTask
    let s := taskSetReady s currTask
    match taskDispatch s with
    | (s, true) => .suspended s .sleepPass
    | (s, false) => taskTimeTickSleep s
  else taskTimeTickSleep s

/-- `do_handler_timer` of `dev/time.c`. -/
def doHandlerTimer (s : Sched T M S) : Stretch (Sched T M S) Rest :=
  taskTimeTick { s with sysTick := (s.sysTick + 1) % 2 ^ 32 }

end StartKernel
