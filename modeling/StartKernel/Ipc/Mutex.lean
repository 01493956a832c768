import StartKernel.Core.Task

/-!
# `StartKernel.Ipc.Mutex`: the mutex of `ipc/mutex.c`
-/

set_option autoImplicit false

namespace StartKernel

open Suspend (Stretch)

/-- `mutex_init`. -/
def mutexInit {T : Type} : MutexT T :=
  { lockedCount := 0, owner := none, waitList := listInit }

variable {T M S : Type} [DecidableEq T] [HasIdle T] [DecidableEq M]

/-- `mutex_lock`. -/
def mutexLock (m : M) (s : Sched T M S) : Stretch (Sched T M S) Rest :=
  let curr := taskCurrent s
  let mutex := s.mutex m
  if mutex.lockedCount = 0 then
    .returned (s.setMutex m { mutex with lockedCount := 1, owner := some curr })
  else if mutex.owner = some curr then
    .returned (s.setMutex m { mutex with lockedCount := toInt (mutex.lockedCount + 1) })
  else
    let s := taskSetBlock s curr
    let r := listInsertLast s.waitNode mutex.waitList curr
    dispatchAndLeave ({ s with waitNode := r.1 }.setMutex m { mutex with waitList := r.2 })

/-- `mutex_unlock`. The last owner's unlock hands the mutex to the first waiter. -/
def mutexUnlock (m : M) (s : Sched T M S) : Stretch (Sched T M S) Rest :=
  let curr := taskCurrent s
  let mutex := s.mutex m
  if mutex.owner = some curr then
    let mutex : MutexT T := { mutex with lockedCount := toInt (mutex.lockedCount - 1) }
    if mutex.lockedCount = 0 then
      let mutex : MutexT T := { mutex with owner := none }
      if listCount mutex.waitList ≠ 0 then
        match listRemoveFirst s.waitNode mutex.waitList with
        | (some task, waitNode, waitList) =>
          let s := { s with waitNode := waitNode }.setMutex m { mutex with waitList }
          let s := taskSetReady s task
          dispatchAndLeave (s.setMutex m { s.mutex m with lockedCount := 1, owner := some task })
        | (none, _) => .returned s -- a nonzero count has a first node
      else .returned (s.setMutex m mutex)
    else .returned (s.setMutex m mutex)
  else .returned s

end StartKernel
