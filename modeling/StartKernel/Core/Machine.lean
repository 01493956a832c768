import StartKernel.Ipc.Mutex
import StartKernel.Ipc.Sem

/-!
# `StartKernel.Core.Machine`: the kernel as a machine of tasks

The current task calls one of the scheduler's operations, or a timer interrupt arrives. An
operation runs with interrupts off up to its next task switch. `kernel` puts the operations
into the shape of `Suspend.System`: `Suspend.step` is one uninterrupted stretch, and a task
that was switched out inside `task_dispatch` runs the rest when it is current again.

The idle task only runs `hlt`, so it calls no operation. A timer interrupt may arrive
whichever task is current.

The history records calls and returns, and what the branch taken means for the caller:
`block` when it joins a wait list, `pass` when it takes a free mutex or a token at once,
and `wake` when a waiter is taken off a wait list.
-/

set_option autoImplicit false

namespace StartKernel

open Suspend (Stretch System)

/-- An object with a wait list. -/
inductive Obj (M S : Type) where
  | mutex (m : M)
  | sem (x : S)
  deriving DecidableEq

/-- An operation of the current task, or the timer interrupt. -/
inductive Call (M S : Type) where
  | schedYield
  | msleep (ms : Nat)
  | mutexLock (m : M)
  | mutexUnlock (m : M)
  | semWait (x : S)
  | semNotify (x : S)
  | timer
  deriving DecidableEq

/-- The events of the history. -/
inductive Event (T M S : Type) where
  | call (t : T) (a : Call M S)
  | ret (t : T) (a : Call M S)
  | block (t : T) (o : Obj M S)
  | pass (t : T) (o : Obj M S)
  | wake (t : T) (o : Obj M S)
  deriving DecidableEq

variable {T M S : Type} [DecidableEq T] [HasIdle T] [DecidableEq M] [DecidableEq S]

/-- The wait list of an object. -/
def Sched.waitList (s : Sched T M S) : Obj M S → ListT T
  | .mutex m => (s.mutex m).waitList
  | .sem x => (s.sem x).waitList

/-- The waiter that an unlock or a notify takes off a wait list. -/
def Sched.firstWaiter (s : Sched T M S) (o : Obj M S) : List (Event T M S) :=
  if listCount (s.waitList o) = 0 then []
  else (listFirst (s.waitList o)).toList.map (fun w => .wake w o)

/-- What the branch of the operation `a` means for the caller `t`. -/
def Sched.outcome (s : Sched T M S) (t : T) : Call M S → List (Event T M S)
  | .mutexLock m =>
    if (s.mutex m).lockedCount = 0 then [.pass t (.mutex m)]
    else if (s.mutex m).owner = some t then []
    else [.block t (.mutex m)]
  | .mutexUnlock m =>
    if (s.mutex m).owner = some t ∧ toInt ((s.mutex m).lockedCount - 1) = 0 then
      s.firstWaiter (.mutex m)
    else []
  | .semWait x => if (s.sem x).count > 0 then [.pass t (.sem x)] else [.block t (.sem x)]
  | .semNotify x => s.firstWaiter (.sem x)
  | _ => []

/-- The first stretch of an operation. -/
def kernelStart : Call M S → Sched T M S → Stretch (Sched T M S) Rest
  | .schedYield => sysSchedYield
  | .msleep ms => sysMsleep ms
  | .mutexLock m => mutexLock m
  | .mutexUnlock m => mutexUnlock m
  | .semWait x => semWait x
  | .semNotify x => semNotify x
  | .timer => doHandlerTimer

/-- The rest of a switched-out operation. -/
def kernelResume : Rest → Sched T M S → Stretch (Sched T M S) Rest
  | .leave => .returned
  | .sleepPass => taskTimeTickSleep

/-- The kernel. -/
def kernel : System (Sched T M S) T (Call M S) Rest (Event T M S) where
  curr := taskCurrent
  may a s := a = .timer ∨ taskCurrent s ≠ idleTask
  start := kernelStart
  resume := kernelResume
  note t a s := .call t a :: s.outcome t a
  finish := .ret

/-- A configuration of the kernel. -/
abbrev KConfig (T M S : Type) := Suspend.Config (Sched T M S) T (Call M S) Rest (Event T M S)

/-- A label of a kernel run. -/
abbrev KLabel (M S : Type) := Suspend.Label (Call M S)

/-- The `ms` of every sleep is at most 4294967286, so that rounding it up to ticks does not
wrap. -/
def SleepFits : KLabel M S → Prop
  | .start (.msleep ms) => ms ≤ 4294967286
  | _ => True

instance : DecidablePred (SleepFits : KLabel M S → Prop) := fun l =>
  match l with
  | .start (.msleep ms) => inferInstanceAs (Decidable (ms ≤ 4294967286))
  | .resume => isTrue trivial
  | .start .schedYield => isTrue trivial
  | .start (.mutexLock _) => isTrue trivial
  | .start (.mutexUnlock _) => isTrue trivial
  | .start (.semWait _) => isTrue trivial
  | .start (.semNotify _) => isTrue trivial
  | .start .timer => isTrue trivial

end StartKernel
