import StartKernel.Core.Machine
import StartKernel.Lib.Placement

/-!
# `StartKernel.Abs.Queues`: the scheduler as lines of tasks

The abstract model says what the scheduler is for. A task stands in one of three kinds of
lines: the ready line, the sleep line, or the wait line of an object. Blocking a task takes
it out of the ready line, waking it puts it to the end, and a dispatch makes the first ready
task current, or the idle task when nobody is ready. There are no nodes and no links.

The operations mirror the calls of the kernel, so `queues` is a `Suspend.System` over the
same calls, rests and events. `StartKernel.Proofs.Refine` proves that the kernel refines it.
-/

set_option autoImplicit false

namespace StartKernel

open Function (update)
open Suspend (Stretch System)
open Placement (take put)

/-- Where a task can stand. -/
inductive Place (M S : Type) where
  | ready
  | sleep
  | wait (o : Obj M S)
  deriving DecidableEq

/-- The lines of tasks, with the current task, the task records and the counters of the
mutexes and semaphores. -/
@[ext]
structure Queues (T M S : Type) where
  curr : T
  line : Place M S → List T
  task : T → TaskT
  owner : M → Option T
  lockedCount : M → Int
  semCount : S → Int

namespace Queues

variable {T M S : Type} [DecidableEq T] [HasIdle T] [DecidableEq M] [DecidableEq S]

/-- The store of one task record. -/
def setTask (a : Queues T M S) (t : T) (v : TaskT) : Queues T M S :=
  { a with task := update a.task t v }

/-- A task other than the idle one joins the ready line. -/
def ready (a : Queues T M S) (t : T) : Queues T M S :=
  if t ≠ idleTask then
    { a with line := put a.line .ready t }.setTask t { a.task t with state := .ready }
  else a

/-- A task other than the idle one leaves the ready line. -/
def block (a : Queues T M S) (t : T) : Queues T M S :=
  if t ≠ idleTask then { a with line := take a.line .ready t } else a

/-- The task that runs next. -/
def next (a : Queues T M S) : T := (a.line .ready).head?.getD idleTask

/-- A dispatch, and whether it switched. -/
def dispatch (a : Queues T M S) : Queues T M S × Bool :=
  if a.next ≠ a.curr then
    ({ a with curr := a.next }.setTask a.next { a.task a.next with state := .running }, true)
  else (a, false)

/-- A dispatch at the end of an operation. -/
def leave (a : Queues T M S) : Stretch (Queues T M S) Rest :=
  match a.dispatch with
  | (a, true) => .suspended a .leave
  | (a, false) => .returned a

/-- The current task goes to the end of the ready line, if anybody else is ready. -/
def yield (a : Queues T M S) : Stretch (Queues T M S) Rest :=
  if (a.line .ready).length > 1 then ((a.block a.curr).ready a.curr).leave
  else .returned a

/-- The number of ticks that `ms` is rounded up to, in 32 bits. -/
def ticks (ms : Nat) : Nat := ((if ms < 10 then 10 else ms) + 9) % 2 ^ 32 / 10

/-- The current task leaves the ready line and sleeps for a positive number of ticks. -/
def msleep (ms : Nat) (a : Queues T M S) : Stretch (Queues T M S) Rest :=
  let a := a.block a.curr
  if ticks ms = 0 then a.leave
  else
    ({ a with line := put a.line .sleep a.curr }.setTask a.curr
      { a.task a.curr with sleepTicks := toInt (ticks ms), state := .sleep }).leave

/-- One sleeper is a tick closer to the end of its sleep. At zero it is ready again. -/
def sleepStep (a : Queues T M S) (t : T) : Queues T M S :=
  let a := a.setTask t { a.task t with sleepTicks := toInt ((a.task t).sleepTicks - 1) }
  if (a.task t).sleepTicks = 0 then { a with line := take a.line .sleep t }.ready t else a

/-- Every sleeper, from the first to the last. -/
def sleepAll (a : Queues T M S) : Queues T M S := (a.line .sleep).foldl sleepStep a

/-- The second half of a timer interrupt. -/
def timerSleep (a : Queues T M S) : Stretch (Queues T M S) Rest := a.sleepAll.leave

/-- The time slice of the current task is over with this tick. -/
def sliceOver (a : Queues T M S) : Bool := toInt ((a.task a.curr).sliceTicks - 1) == 0

/-- The current task loses a tick of its slice. At the end of the slice it gets a new one
and goes to the end of the ready line. -/
def afterSlice (a : Queues T M S) : Queues T M S :=
  if a.sliceOver then
    ((a.setTask a.curr { a.task a.curr with
      sliceTicks := (a.task a.curr).timeTicks }).block a.curr).ready a.curr
  else
    a.setTask a.curr { a.task a.curr with
      sliceTicks := toInt ((a.task a.curr).sliceTicks - 1) }

/-- A timer interrupt. When the end of a slice switches to another task, the sleep pass
waits until the interrupted task is dispatched again. -/
def timer (a : Queues T M S) : Stretch (Queues T M S) Rest :=
  if a.sliceOver then
    match a.afterSlice.dispatch with
    | (a, true) => .suspended a .sleepPass
    | (a, false) => a.timerSleep
  else a.afterSlice.timerSleep

/-- A caller that finds the mutex taken waits in its line. -/
def lock (m : M) (a : Queues T M S) : Stretch (Queues T M S) Rest :=
  if a.lockedCount m = 0 then
    .returned { a with
      owner := update a.owner m (some a.curr), lockedCount := update a.lockedCount m 1 }
  else if a.owner m = some a.curr then
    .returned { a with
      lockedCount := update a.lockedCount m (toInt (a.lockedCount m + 1)) }
  else
    let b := a.block a.curr
    { b with line := put b.line (.wait (.mutex m)) a.curr }.leave

/-- The owner's last unlock hands the mutex to the first waiter. -/
def unlock (m : M) (a : Queues T M S) : Stretch (Queues T M S) Rest :=
  if a.owner m = some a.curr then
    if toInt (a.lockedCount m - 1) = 0 then
      match a.line (.wait (.mutex m)) with
      | w :: _ =>
        let b := { a with line := take a.line (.wait (.mutex m)) w }.ready w
        leave { b with
          owner := update a.owner m (some w), lockedCount := update a.lockedCount m 1 }
      | [] =>
        .returned { a with
          owner := update a.owner m none, lockedCount := update a.lockedCount m 0 }
    else
      .returned { a with
        lockedCount := update a.lockedCount m (toInt (a.lockedCount m - 1)) }
  else .returned a

/-- A caller that finds no token waits in the line of the semaphore. -/
def semWait (x : S) (a : Queues T M S) : Stretch (Queues T M S) Rest :=
  if a.semCount x > 0 then
    .returned { a with semCount := update a.semCount x (toInt (a.semCount x - 1)) }
  else
    let b := a.block a.curr
    { b with line := put b.line (.wait (.sem x)) a.curr }.leave

/-- A notify passes a token to the first waiter, or adds it to the count. -/
def semNotify (x : S) (a : Queues T M S) : Stretch (Queues T M S) Rest :=
  match a.line (.wait (.sem x)) with
  | w :: _ => ({ a with line := take a.line (.wait (.sem x)) w }.ready w).leave
  | [] => .returned { a with semCount := update a.semCount x (toInt (a.semCount x + 1)) }

/-- The waiter that an unlock or a notify takes off a wait line. -/
def firstWaiter (a : Queues T M S) (o : Obj M S) : List (Event T M S) :=
  (a.line (.wait o)).head?.toList.map (fun w => .wake w o)

/-- What an operation means for its caller. -/
def outcome (a : Queues T M S) (t : T) : Call M S → List (Event T M S)
  | .mutexLock m =>
    if a.lockedCount m = 0 then [.pass t (.mutex m)]
    else if a.owner m = some t then []
    else [.block t (.mutex m)]
  | .mutexUnlock m =>
    if a.owner m = some t ∧ toInt (a.lockedCount m - 1) = 0 then a.firstWaiter (.mutex m)
    else []
  | .semWait x => if a.semCount x > 0 then [.pass t (.sem x)] else [.block t (.sem x)]
  | .semNotify x => a.firstWaiter (.sem x)
  | _ => []

/-- The first stretch of an operation. -/
def start : Call M S → Queues T M S → Stretch (Queues T M S) Rest
  | .schedYield => yield
  | .msleep ms => msleep ms
  | .mutexLock m => lock m
  | .mutexUnlock m => unlock m
  | .semWait x => semWait x
  | .semNotify x => semNotify x
  | .timer => timer

/-- The rest of a switched-out operation. -/
def resume : Rest → Queues T M S → Stretch (Queues T M S) Rest
  | .leave => .returned
  | .sleepPass => timerSleep

end Queues

/-- The machine of lines of tasks. -/
def queues {T M S : Type} [DecidableEq T] [HasIdle T] [DecidableEq M] [DecidableEq S] :
    System (Queues T M S) T (Call M S) Rest (Event T M S) where
  curr a := a.curr
  may c a := c = .timer ∨ a.curr ≠ idleTask
  start := Queues.start
  resume := Queues.resume
  note t c a := .call t c :: a.outcome t c
  finish := .ret

/-- A configuration of the machine of lines. -/
abbrev QConfig (T M S : Type) := Suspend.Config (Queues T M S) T (Call M S) Rest (Event T M S)

end StartKernel
