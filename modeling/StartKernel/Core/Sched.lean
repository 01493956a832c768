import StartKernel.Comm.Types
import StartKernel.Tools.List

/-!
# `StartKernel.Core.Sched`: the data of the scheduler

The task record of `core/task.h`, the mutex and semaphore of `ipc/`, and the state of the
task manager around them. `T`, `M` and `S` are the pointers to tasks, mutexes and
semaphores. `idleTask` is `&task_manager.idle_task`.

`TaskT` and `TssT` hold the fields that a modelled function reads or writes. The embedded
list nodes of a task stand next to the records, one heap for each kind of node: `runNode`
links the ready and the sleep list, `waitNode` the wait lists, `allNode` the task list.
`currTask` is null in the source only before the first task starts.
-/

set_option autoImplicit false

namespace StartKernel

/-- The `state` of a task. -/
inductive TaskState where
  | created
  | running
  | sleep
  | ready
  | waiting
  | zombie
  deriving DecidableEq, Repr

/-- The fields of `tss_t` that `tss_init` sets; it leaves the others zero. -/
structure TssT where
  esp0 : Nat
  ss0 : Nat
  cr3 : Nat
  eip : Nat
  eflags : Nat
  esp : Nat
  es : Nat
  cs : Nat
  ss : Nat
  ds : Nat
  fs : Nat
  gs : Nat
  iomap : Nat
  deriving DecidableEq, Repr

/-- `task_t`. -/
structure TaskT where
  state : TaskState
  heapStart : Nat
  heapEnd : Nat
  sleepTicks : Int
  timeTicks : Int
  sliceTicks : Int
  tss : TssT
  tssSel : Nat
  deriving DecidableEq, Repr

/-- `mutex_t`. -/
structure MutexT (T : Type) where
  owner : Option T
  lockedCount : Int
  waitList : ListT T
  deriving DecidableEq

/-- `sem_t`. -/
structure SemT (T : Type) where
  count : Int
  waitList : ListT T
  deriving DecidableEq

/-- The idle task, a fixed object of the task manager. -/
class HasIdle (T : Type) where
  idleTask : T

export HasIdle (idleTask)

/-- The task manager with all tasks, mutexes and semaphores, and the tick counter of
`dev/time.c`. -/
structure Sched (T M S : Type) where
  currTask : T
  readyList : ListT T
  taskList : ListT T
  sleepList : ListT T
  task : T → TaskT
  runNode : T → ListNode T
  waitNode : T → ListNode T
  allNode : T → ListNode T
  mutex : M → MutexT T
  sem : S → SemT T
  appCodeSel : Int
  appDataSel : Int
  sysTick : Nat

variable {T M S : Type}

open Function (update)

/-- The store of fields of one task record. -/
def Sched.setTask [DecidableEq T] (s : Sched T M S) (t : T) (v : TaskT) : Sched T M S :=
  { s with task := update s.task t v }

/-- The store of fields of one mutex. -/
def Sched.setMutex [DecidableEq M] (s : Sched T M S) (m : M) (v : MutexT T) :
    Sched T M S :=
  { s with mutex := update s.mutex m v }

/-- The store of fields of one semaphore. -/
def Sched.setSem [DecidableEq S] (s : Sched T M S) (x : S) (v : SemT T) : Sched T M S :=
  { s with sem := update s.sem x v }

end StartKernel
