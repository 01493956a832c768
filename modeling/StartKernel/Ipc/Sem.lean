import StartKernel.Core.Task

/-!
# `StartKernel.Ipc.Sem`: the counting semaphore of `ipc/sem.c`
-/

set_option autoImplicit false

namespace StartKernel

open Suspend (Stretch)

/-- `sem_init`. -/
def semInit {T : Type} (initCount : Int) : SemT T :=
  { count := initCount, waitList := listInit }

variable {T M S : Type} [DecidableEq T] [HasIdle T] [DecidableEq S]

/-- `sem_wait`. A blocked caller returns later without a second look at the count. -/
def semWait (x : S) (s : Sched T M S) : Stretch (Sched T M S) Rest :=
  let sem := s.sem x
  if sem.count > 0 then
    .returned (s.setSem x { sem with count := toInt (sem.count - 1) })
  else
    let curr := taskCurrent s
    let s := taskSetBlock s curr
    let r := listInsertLast s.waitNode sem.waitList curr
    dispatchAndLeave ({ s with waitNode := r.1 }.setSem x { sem with waitList := r.2 })

/-- `sem_notify`. -/
def semNotify (x : S) (s : Sched T M S) : Stretch (Sched T M S) Rest :=
  let sem := s.sem x
  if listCount sem.waitList ≠ 0 then
    match listRemoveFirst s.waitNode sem.waitList with
    | (some task, waitNode, waitList) =>
      let s := { s with waitNode := waitNode }.setSem x { sem with waitList }
      dispatchAndLeave (taskSetReady s task)
    | (none, _) => .returned s -- a nonzero count has a first node
  else .returned (s.setSem x { sem with count := toInt (sem.count + 1) })

end StartKernel
