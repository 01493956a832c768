import StartKernel.Proofs.List
import StartKernel.Proofs.Queues

/-!
# `StartKernel.Proofs.Refine`: the kernel refines the lines of tasks

`Refines s a` relates a kernel state, with its nodes and links, to a state of lines: every
list header describes its line, and the other data agree. The queue functions of
`core/task.c` refine the moves between lines (`Refines.ready`, `Refines.block`, ...), each by
the list lemma for its edit and the frame rule for the lists it does not touch.

The operations are sequences of these functions, so each refines its abstract counterpart.
`kernel_simulates` puts them together: `Suspend.Simulates.run` then turns every run of the
kernel into a run of lines with the same history.
-/

set_option autoImplicit false
set_option linter.unusedSectionVars false

namespace StartKernel

open Function (update)
open Suspend (Stretch StretchRel Simulates)
open Placement (Apart Placed take put mem_take mem_put)

variable {T M S : Type} [DecidableEq T] [HasIdle T] [DecidableEq M] [DecidableEq S]
  {s : Sched T M S} {a : Queues T M S} {t : T}

/-- The kernel state `s` holds the lines of `a` in its lists. -/
structure Refines (s : Sched T M S) (a : Queues T M S) : Prop where
  curr : s.currTask = a.curr
  task : s.task = a.task
  ready : IsList s.runNode s.readyList (a.line .ready)
  sleep : IsList s.runNode s.sleepList (a.line .sleep)
  mutexLine : ∀ m, IsList s.waitNode (s.mutex m).waitList (a.line (.wait (.mutex m)))
  semLine : ∀ x, IsList s.waitNode (s.sem x).waitList (a.line (.wait (.sem x)))
  owner : ∀ m, (s.mutex m).owner = a.owner m
  lockedCount : ∀ m, (s.mutex m).lockedCount = a.lockedCount m
  semCount : ∀ x, (s.sem x).count = a.semCount x
  apart : Apart a.line

/-- The wait list of an object describes its line. -/
theorem Refines.wait (h : Refines s a) (o : Obj M S) :
    IsList s.waitNode (s.waitList o) (a.line (.wait o)) := by
  cases o with
  | mutex m => exact h.mutexLine m
  | sem x => exact h.semLine x

/-! ### The queue functions -/

theorem Refines.setTask (h : Refines s a) (t : T) (v : TaskT) :
    Refines (s.setTask t v) (a.setTask t v) where
  curr := h.curr
  task := by simp [Sched.setTask, h.task]
  ready := h.ready
  sleep := h.sleep
  mutexLine := h.mutexLine
  semLine := h.semLine
  owner := h.owner
  lockedCount := h.lockedCount
  semCount := h.semCount
  apart := h.apart

/-- A change of the run nodes, the two lists they link and the lines of these lists. -/
theorem Refines.relink (h : Refines s a) {runNode : T → ListNode T}
    {readyList sleepList : ListT T} {line : Place M S → List T}
    (hr : IsList runNode readyList (line .ready))
    (hs : IsList runNode sleepList (line .sleep))
    (hw : ∀ o, line (.wait o) = a.line (.wait o)) (hap : Apart line) :
    Refines { s with runNode, readyList, sleepList } { a with line } where
  curr := h.curr
  task := h.task
  ready := hr
  sleep := hs
  mutexLine m := by
    simp only [hw]
    exact h.mutexLine m
  semLine x := by
    simp only [hw]
    exact h.semLine x
  owner := h.owner
  lockedCount := h.lockedCount
  semCount := h.semCount
  apart := hap

/-- `task_set_ready` of a task that stands nowhere. -/
theorem Refines.setReady (h : Refines s a) (ht : t ≠ idleTask → ∀ p, t ∉ a.line p) :
    Refines (taskSetReady s t) (a.ready t) := by
  unfold taskSetReady Queues.ready
  split
  · rename_i hi
    have hnot := ht hi
    simp only [show s.task t = a.task t from congrFun h.task t]
    refine Refines.setTask (h.relink ?_ ?_ (fun o => by simp) (h.apart.put .ready hnot)) t _
    · rw [Placement.put_self]
      exact h.ready.insertLast (hnot .ready)
    · -- The two lists share the run nodes, and no sleeper is the task or a ready one.
      rw [Placement.put_of_ne _ _ (by simp)]
      refine h.sleep.congr fun x hx => listInsertLast_other h.ready ?_ ?_
      · exact fun hr => absurd (h.apart.disjoint _ _ x hr hx) (by simp)
      · rintro rfl
        exact hnot .sleep hx
  · exact h

/-- `task_set_block` of a ready task. -/
theorem Refines.setBlock (h : Refines s a) (ht : t ≠ idleTask → t ∈ a.line .ready) :
    Refines (taskSetBlock s t) (a.block t) := by
  unfold taskSetBlock Queues.block
  split
  · rename_i hi
    have hm := ht hi
    refine h.relink ?_ ?_ (fun o => by simp) (h.apart.take .ready t)
    · rw [Placement.take_self]
      exact h.ready.erase hm
    · rw [Placement.take_of_ne _ _ (by simp)]
      refine h.sleep.congr fun x hx => listRemove_frame h.ready hm ?_
      exact fun hr => absurd (h.apart.disjoint _ _ x hr hx) (by simp)
  · exact h

/-- The insertion of `task_set_sleep` for a task that stands nowhere. -/
theorem Refines.setSleep (h : Refines s a) (ht : ∀ p, t ∉ a.line p) {n : Nat} (hn : n ≠ 0) :
    Refines (taskSetSleep s t n)
      ({ a with line := put a.line .sleep t }.setTask t
        { a.task t with sleepTicks := toInt n, state := .sleep }) := by
  unfold taskSetSleep
  simp only [if_neg hn, show s.task t = a.task t from congrFun h.task t]
  have h' := h.setTask t { a.task t with sleepTicks := toInt n, state := .sleep }
  refine h'.relink ?_ ?_ (fun o => by simp) (h.apart.put .sleep ht)
  · show IsList _ _ (put a.line .sleep t .ready)
    rw [Placement.put_of_ne _ _ (by simp)]
    refine h.ready.congr fun x hx => listInsertLast_other h.sleep ?_ ?_
    · exact fun hs => absurd (h.apart.disjoint _ _ x hs hx) (by simp)
    · rintro rfl
      exact ht .ready hx
  · show IsList _ _ (put a.line .sleep t .sleep)
    rw [Placement.put_self]
    exact h.sleep.insertLast (ht .sleep)

/-- `task_set_wakeup` of a sleeper. -/
theorem Refines.setWakeup (h : Refines s a) (ht : t ∈ a.line .sleep) :
    Refines (taskSetWakeup s t) { a with line := take a.line .sleep t } := by
  refine h.relink ?_ ?_ (fun o => by simp) (h.apart.take .sleep t)
  · rw [Placement.take_of_ne _ _ (by simp)]
    refine h.ready.congr fun x hx => listRemove_frame h.sleep ht ?_
    exact fun hs => absurd (h.apart.disjoint _ _ x hs hx) (by simp)
  · rw [Placement.take_self]
    exact h.sleep.erase ht

/-- `task_next_run` is the first ready task, or the idle task. -/
theorem Refines.next (h : Refines s a) : taskNextRun s = a.next := by
  have hc := h.ready.count
  have hf := h.ready.first
  unfold taskNextRun Queues.next listCount listFirst
  rw [hf]
  cases hr : a.line .ready with
  | nil => simp
  | cons t ts =>
    rw [hr] at hc
    have hne : ¬ s.readyList.count = 0 := by
      simp only [List.length_cons] at hc
      omega
    rw [if_neg hne]

/-- `task_dispatch` switches when the abstract dispatch does. -/
theorem Refines.dispatch (h : Refines s a) :
    Refines (taskDispatch s).1 a.dispatch.1 ∧ (taskDispatch s).2 = a.dispatch.2 := by
  unfold taskDispatch Queues.dispatch
  simp only [h.next, h.curr]
  split
  · -- A switch stores the current task and marks it as running.
    refine ⟨?_, rfl⟩
    simp only [show s.task a.next = a.task a.next from congrFun h.task a.next]
    refine Refines.setTask (s := { s with currTask := a.next })
      (a := { a with curr := a.next }) ?_ _ _
    exact ⟨rfl, h.task, h.ready, h.sleep, h.mutexLine, h.semLine, h.owner, h.lockedCount,
      h.semCount, h.apart⟩
  · exact ⟨h, rfl⟩

/-- The last dispatch of an operation. -/
theorem Refines.leave (h : Refines s a) :
    StretchRel Refines (dispatchAndLeave s) a.leave := by
  obtain ⟨hr, hb⟩ := h.dispatch
  unfold dispatchAndLeave Queues.leave
  revert hr hb
  generalize taskDispatch s = r
  generalize a.dispatch = r'
  obtain ⟨s', b⟩ := r
  obtain ⟨a', b'⟩ := r'
  rintro hr rfl
  cases b with
  | true => exact .suspended hr
  | false => exact .returned hr

/-! ### The sleep loop -/

/-- One round of the sleep loop. -/
theorem Refines.sleepStep (h : Refines s a) (ht : t ∈ a.line .sleep) :
    Refines (StartKernel.sleepStep s t) (a.sleepStep t) := by
  have htask := congrFun h.task t
  unfold StartKernel.sleepStep Queues.sleepStep
  have h' := h.setTask t { a.task t with sleepTicks := toInt ((a.task t).sleepTicks - 1) }
  simp only [htask, show ∀ v, (s.setTask t v).task = (a.setTask t v).task from
    fun v => (h.setTask t v).task]
  split
  · refine (h'.setWakeup ht).setReady fun _ p => ?_
    exact h.apart.not_mem_take ht
  · exact h'

/-- The sleep line after one round: the task stays or leaves. -/
theorem sleepStep_line_sleep (a : Queues T M S) (t : T) :
    (a.sleepStep t).line .sleep = a.line .sleep ∨
    (a.sleepStep t).line .sleep = (a.line .sleep).erase t := by
  unfold Queues.sleepStep
  dsimp only
  split
  · right
    by_cases ht : t = idleTask
    · subst ht
      simp
    · simp [ht]
  · exact Or.inl rfl

/-- The sleep loop visits the sleep line from the node it stands at. `kept` are the sleepers
it has passed, `ts` the ones it still has to visit, and the fuel covers them. -/
theorem Refines.sleepLoop (ts : List T) :
    ∀ (fuel : Nat) (kept : List T) (s : Sched T M S) (a : Queues T M S),
      Refines s a → a.line .sleep = kept ++ ts → ts.length ≤ fuel →
      Refines (StartKernel.sleepLoop fuel s ts.head?).1 (ts.foldl Queues.sleepStep a) ∧
      (StartKernel.sleepLoop fuel s ts.head?).2 = none := by
  induction ts with
  | nil =>
    intro fuel kept s a h _ _
    cases fuel <;> exact ⟨h, rfl⟩
  | cons t ts ih =>
    intro fuel kept s a h hline hfuel
    obtain ⟨fuel, rfl⟩ : ∃ k, fuel = k + 1 := ⟨fuel - 1, by simp at hfuel; omega⟩
    have ht : t ∈ a.line .sleep := by simp [hline]
    have hlink := h.sleep.linked kept t ts hline
    have hnext : listNodeNext s.runNode t = ts.head? := hlink.2
    have hkept : t ∉ kept := fun hm => by
      have hnd := h.apart.nodup .sleep
      rw [hline] at hnd
      exact (List.nodup_append.mp hnd).2.2 t hm t (by simp) rfl
    simp only [List.head?_cons, StartKernel.sleepLoop, hnext, List.foldl_cons]
    have hstep := h.sleepStep ht
    -- The node after `t` is read before the step, which may unlink `t`.
    rcases sleepStep_line_sleep a t with hs | hs
    · -- It sleeps on, and the loop has passed it.
      exact ih fuel (kept ++ [t]) _ _ hstep (by rw [hs, hline]; simp)
        (by simpa using hfuel)
    · -- It wakes up, and the rest of the line follows those that were kept.
      refine ih fuel kept _ _ hstep ?_ (by simpa using hfuel)
      rw [hs, hline, List.erase_append_right _ hkept, List.erase_cons_head]

/-- The second half of a timer interrupt. -/
theorem Refines.timerSleep (h : Refines s a) :
    StretchRel Refines (taskTimeTickSleep s) a.timerSleep := by
  have hfuel : (a.line .sleep).length ≤ s.sleepList.count.toNat := by
    rw [h.sleep.count]
    simp
  have hloop := (Refines.sleepLoop (a.line .sleep) s.sleepList.count.toNat [] s a h rfl hfuel).1
  unfold taskTimeTickSleep listFirst
  rw [h.sleep.first]
  exact hloop.leave

/-! ### The operations -/

/-- The dispatch at the end of a time slice: a switch suspends the sleep pass. -/
theorem Refines.sliceDispatch (h : Refines s a) :
    StretchRel Refines
      (match taskDispatch s with
        | (s, true) => .suspended s .sleepPass
        | (s, false) => taskTimeTickSleep s)
      (match a.dispatch with
        | (a, true) => .suspended a .sleepPass
        | (a, false) => a.timerSleep) := by
  obtain ⟨hr, hb⟩ := h.dispatch
  revert hr hb
  generalize taskDispatch s = r
  generalize a.dispatch = r'
  obtain ⟨s', b⟩ := r
  obtain ⟨a', b'⟩ := r'
  rintro hr rfl
  cases b with
  | true => exact .suspended hr
  | false => exact hr.timerSleep

/-- The current task goes to the end of the ready line. -/
theorem Refines.requeue (h : Refines s a) (hinv : a.Inv) {v : TaskT} :
    Refines (taskSetReady (taskSetBlock (s.setTask a.curr v) a.curr) a.curr)
      (((a.setTask a.curr v).block a.curr).ready a.curr) := by
  refine ((h.setTask a.curr v).setBlock fun hc => hinv.curr_mem hc).setReady fun hc p => ?_
  rw [Queues.block_line hc]
  exact hinv.placed.not_mem_take (hinv.curr_mem hc)

theorem Refines.timeTick (h : Refines s a) (hinv : a.Inv) :
    StretchRel Refines (taskTimeTick s) a.timer := by
  have hcurr : taskCurrent s = a.curr := h.curr
  have htask : s.task a.curr = a.task a.curr := congrFun h.task a.curr
  unfold taskTimeTick Queues.timer Queues.afterSlice Queues.sliceOver
  simp only [hcurr, Sched.setTask, Function.update_self, Function.update_idem, htask, beq_iff_eq]
  split
  · -- The slice is over.
    exact (h.requeue hinv).sliceDispatch
  · exact (h.setTask a.curr _).timerSleep

theorem Refines.timer (h : Refines s a) (hinv : a.Inv) :
    StretchRel Refines (doHandlerTimer s) a.timer := by
  have h' : Refines { s with sysTick := (s.sysTick + 1) % 2 ^ 32 } a :=
    ⟨h.curr, h.task, h.ready, h.sleep, h.mutexLine, h.semLine, h.owner, h.lockedCount,
      h.semCount, h.apart⟩
  exact h'.timeTick hinv

/-- The current task leaves the ready list. Afterwards it stands nowhere. -/
theorem Refines.blockCurr (h : Refines s a) (hinv : a.Inv) (hc : a.curr ≠ idleTask) :
    Refines (taskSetBlock s a.curr) (a.block a.curr) ∧
    ∀ p, a.curr ∉ (a.block a.curr).line p := by
  refine ⟨h.setBlock fun _ => hinv.curr_mem hc, fun p => ?_⟩
  rw [Queues.block_line hc]
  exact hinv.placed.not_mem_take (hinv.curr_mem hc)

theorem Refines.yield (h : Refines s a) (hinv : a.Inv) (hc : a.curr ≠ idleTask) :
    StretchRel Refines (sysSchedYield s) a.yield := by
  have hcount : listCount s.readyList > 1 ↔ (a.line .ready).length > 1 := by
    unfold listCount
    rw [h.ready.count]
    omega
  unfold sysSchedYield Queues.yield
  simp only [hcount, show taskCurrent s = a.curr from h.curr]
  split
  · obtain ⟨h₁, hnot⟩ := h.blockCurr hinv hc
    exact (h₁.setReady fun _ => hnot).leave
  · exact .returned h

theorem Refines.msleep (h : Refines s a) (hinv : a.Inv) (hc : a.curr ≠ idleTask) (ms : Nat) :
    StretchRel Refines (sysMsleep ms s) (a.msleep ms) := by
  obtain ⟨h₁, hnot⟩ := h.blockCurr hinv hc
  have hcurr : (taskSetBlock s a.curr).currTask = a.curr := by
    rw [h₁.curr, Queues.block_curr]
  have hms' : ((if ms < OS_TICK_MS then OS_TICK_MS else ms) + (OS_TICK_MS - 1)) % 2 ^ 32
      / OS_TICK_MS = Queues.ticks ms := rfl
  unfold sysMsleep Queues.msleep
  simp only [h.curr, hcurr, hms', Queues.block_curr]
  by_cases hticks : Queues.ticks ms = 0
  · -- The rounding has wrapped, and `task_set_sleep` does nothing.
    rw [if_pos hticks, taskSetSleep, if_pos hticks]
    exact h₁.leave
  · have hsleep := h₁.setSleep hnot hticks
    simp only [Queues.block_curr] at hsleep
    rw [if_neg hticks]
    exact hsleep.leave

/-! ### The wait lists -/

/-- The store of the wait list header of an object. -/
def Sched.setWaitList (s : Sched T M S) (o : Obj M S) (l : ListT T) : Sched T M S :=
  match o with
  | .mutex m => s.setMutex m { s.mutex m with waitList := l }
  | .sem x => s.setSem x { s.sem x with waitList := l }

theorem waitList_setWaitList (s : Sched T M S) (o o' : Obj M S) (l : ListT T) :
    (s.setWaitList o l).waitList o' = if o' = o then l else s.waitList o' := by
  cases o with
  | mutex m =>
    cases o' with
    | mutex m' =>
      by_cases hm : m' = m
      · subst hm
        simp [Sched.setWaitList, Sched.setMutex, Sched.waitList]
      · simp [Sched.setWaitList, Sched.setMutex, Sched.waitList, hm]
    | sem x => simp [Sched.setWaitList, Sched.setMutex, Sched.waitList]
  | sem x =>
    cases o' with
    | mutex m => simp [Sched.setWaitList, Sched.setSem, Sched.waitList]
    | sem x' =>
      by_cases hx : x' = x
      · subst hx
        simp [Sched.setWaitList, Sched.setSem, Sched.waitList]
      · simp [Sched.setWaitList, Sched.setSem, Sched.waitList, hx]

/-- The store keeps the owner and the count of every mutex and the count of every
semaphore. -/
theorem setWaitList_data (s : Sched T M S) (o : Obj M S) (l : ListT T) :
    (∀ m, ((s.setWaitList o l).mutex m).owner = (s.mutex m).owner) ∧
    (∀ m, ((s.setWaitList o l).mutex m).lockedCount = (s.mutex m).lockedCount) ∧
    (∀ x, ((s.setWaitList o l).sem x).count = (s.sem x).count) := by
  cases o with
  | mutex m' =>
    refine ⟨fun m => ?_, fun m => ?_, fun x => rfl⟩ <;>
    · by_cases hm : m = m'
      · subst hm
        simp [Sched.setWaitList, Sched.setMutex]
      · simp [Sched.setWaitList, Sched.setMutex, hm]
  | sem x' =>
    refine ⟨fun m => rfl, fun m => rfl, fun x => ?_⟩
    by_cases hx : x = x'
    · subst hx
      simp [Sched.setWaitList, Sched.setSem]
    · simp [Sched.setWaitList, Sched.setSem, hx]

/-- A change of the wait nodes, of one wait list and of its line. -/
theorem Refines.rewait (h : Refines s a) {waitNode : T → ListNode T} {o : Obj M S}
    {l : ListT T} {line : Place M S → List T}
    (hr : line .ready = a.line .ready) (hs : line .sleep = a.line .sleep)
    (hw : IsList waitNode l (line (.wait o)))
    (hother : ∀ o', o' ≠ o → line (.wait o') = a.line (.wait o'))
    (hnode : ∀ o', o' ≠ o → ∀ x ∈ a.line (.wait o'), waitNode x = s.waitNode x)
    (hap : Apart line) :
    Refines ({ s with waitNode }.setWaitList o l) { a with line } := by
  -- A task stands in one line only, so no other wait list reads the changed nodes.
  have hwait : ∀ o', IsList waitNode (({ s with waitNode }.setWaitList o l).waitList o')
      (line (.wait o')) := by
    intro o'
    rw [waitList_setWaitList]
    split
    · rename_i ho
      subst ho
      exact hw
    · rename_i ho
      rw [hother o' ho]
      exact (h.wait o').congr (hnode o' ho)
  obtain ⟨hown, hlock, hsem⟩ := setWaitList_data { s with waitNode } o l
  have hready : IsList s.runNode s.readyList (line .ready) := hr ▸ h.ready
  have hsleep : IsList s.runNode s.sleepList (line .sleep) := hs ▸ h.sleep
  have howner := fun m => (hown m).trans (h.owner m)
  have hcount := fun m => (hlock m).trans (h.lockedCount m)
  have hscount := fun x => (hsem x).trans (h.semCount x)
  cases o with
  | mutex m =>
    exact ⟨h.curr, h.task, hready, hsleep, fun m => hwait (.mutex m), fun x => hwait (.sem x),
      howner, hcount, hscount, hap⟩
  | sem x =>
    exact ⟨h.curr, h.task, hready, hsleep, fun m => hwait (.mutex m), fun x => hwait (.sem x),
      howner, hcount, hscount, hap⟩

/-- A task that stands nowhere joins a wait list. -/
theorem Refines.joinWait (h : Refines s a) (o : Obj M S) (ht : ∀ p, t ∉ a.line p) :
    Refines
      ({ s with waitNode := (listInsertLast s.waitNode (s.waitList o) t).1 }.setWaitList o
        (listInsertLast s.waitNode (s.waitList o) t).2)
      { a with line := put a.line (.wait o) t } := by
  have hw := h.wait o
  refine h.rewait (by simp) (by simp) ?_ ?_ ?_ (h.apart.put _ ht)
  · rw [Placement.put_self]
    exact hw.insertLast (ht _)
  · intro o' ho
    simp [ho]
  · intro o' ho x hx
    refine listInsertLast_other hw ?_ ?_
    · exact fun hm => ho (by simpa using h.apart.disjoint _ _ x hx hm)
    · rintro rfl
      exact ht _ hx

/-- The first waiter leaves a wait list. -/
theorem Refines.leaveWait (h : Refines s a) {o : Obj M S} {w : T} {ws : List T}
    (hline : a.line (.wait o) = w :: ws) :
    Refines
      ({ s with waitNode := (listRemove s.waitNode (s.waitList o) w).1 }.setWaitList o
        (listRemove s.waitNode (s.waitList o) w).2)
      { a with line := take a.line (.wait o) w } := by
  have hw := h.wait o
  have hm : w ∈ a.line (.wait o) := by simp [hline]
  refine h.rewait (by simp) (by simp) ?_ ?_ ?_ (h.apart.take _ _)
  · rw [Placement.take_self]
    exact hw.erase hm
  · intro o' ho
    simp [ho]
  · intro o' ho x hx
    refine listRemove_frame hw hm ?_
    exact fun hmem => ho (by simpa using h.apart.disjoint _ _ x hx hmem)

/-- The count test of a wait list. -/
theorem Refines.waitCount (h : Refines s a) (o : Obj M S) :
    listCount (s.waitList o) = 0 ↔ a.line (.wait o) = [] := by
  unfold listCount
  rw [(h.wait o).count]
  simp

/-- The store of the owner and the count of a mutex. -/
theorem Refines.setMutex (h : Refines s a) (m : M) (owner : Option T) (count : Int) :
    Refines (s.setMutex m { s.mutex m with owner := owner, lockedCount := count })
      { a with
        owner := update a.owner m owner, lockedCount := update a.lockedCount m count } := by
  refine ⟨h.curr, h.task, h.ready, h.sleep, fun m' => ?_, h.semLine, fun m' => ?_,
    fun m' => ?_, h.semCount, h.apart⟩ <;>
  · by_cases hm : m' = m
    · subst hm
      simp [Sched.setMutex, h.mutexLine]
    · simp [Sched.setMutex, hm, h.mutexLine, h.owner, h.lockedCount]

/-- The store of the count of a mutex. -/
theorem Refines.setLockedCount (h : Refines s a) (m : M) (count : Int) :
    Refines (s.setMutex m { s.mutex m with lockedCount := count })
      { a with lockedCount := update a.lockedCount m count } := by
  have h' := h.setMutex m (s.mutex m).owner count
  rwa [h.owner, Function.update_eq_self m a.owner, ← h.owner] at h'

/-- The store of the count of a semaphore. -/
theorem Refines.setSem (h : Refines s a) (x : S) (count : Int) :
    Refines (s.setSem x { s.sem x with count := count })
      { a with semCount := update a.semCount x count } := by
  refine ⟨h.curr, h.task, h.ready, h.sleep, h.mutexLine, fun x' => ?_, h.owner,
    h.lockedCount, fun x' => ?_, h.apart⟩ <;>
  · by_cases hx : x' = x
    · subst hx
      simp [Sched.setSem, h.semLine]
    · simp [Sched.setSem, hx, h.semLine, h.semCount]

@[simp] theorem taskSetBlock_waitNode (s : Sched T M S) (t : T) :
    (taskSetBlock s t).waitNode = s.waitNode := by
  unfold taskSetBlock
  split <;> rfl

@[simp] theorem taskSetBlock_mutex (s : Sched T M S) (t : T) :
    (taskSetBlock s t).mutex = s.mutex := by
  unfold taskSetBlock
  split <;> rfl

@[simp] theorem taskSetBlock_sem (s : Sched T M S) (t : T) :
    (taskSetBlock s t).sem = s.sem := by
  unfold taskSetBlock
  split <;> rfl

@[simp] theorem taskSetReady_mutex (s : Sched T M S) (t : T) :
    (taskSetReady s t).mutex = s.mutex := by
  unfold taskSetReady
  split <;> rfl

/-- The current task leaves the ready list and joins a wait list. -/
theorem Refines.blockOn (h : Refines s a) (hinv : a.Inv) (hc : a.curr ≠ idleTask)
    (o : Obj M S) :
    Refines
      ({ taskSetBlock s a.curr with
          waitNode := (listInsertLast s.waitNode (s.waitList o) a.curr).1 }.setWaitList o
        (listInsertLast s.waitNode (s.waitList o) a.curr).2)
      { a.block a.curr with line := put (a.block a.curr).line (.wait o) a.curr } := by
  obtain ⟨h₁, hnot⟩ := h.blockCurr hinv hc
  have hl : (taskSetBlock s a.curr).waitList o = s.waitList o := by
    cases o <;> simp [Sched.waitList]
  have h₂ := h₁.joinWait o hnot
  rw [taskSetBlock_waitNode, hl] at h₂
  exact h₂

theorem Refines.lock (h : Refines s a) (hinv : a.Inv) (hc : a.curr ≠ idleTask) (m : M) :
    StretchRel Refines (mutexLock m s) (a.lock m) := by
  have hcurr : taskCurrent s = a.curr := h.curr
  have hcount := h.lockedCount m
  have howner := h.owner m
  unfold mutexLock Queues.lock
  dsimp only
  rw [hcurr]
  by_cases hfree : a.lockedCount m = 0
  · -- The mutex is free, and the caller takes it.
    rw [if_pos (hcount.trans hfree), if_pos hfree]
    exact .returned (h.setMutex m (some a.curr) 1)
  rw [if_neg (by rwa [hcount]), if_neg hfree]
  by_cases hown : a.owner m = some a.curr
  · -- The owner locks it again.
    rw [if_pos (howner.trans hown), if_pos hown, ← hcount]
    exact .returned (h.setLockedCount m _)
  · -- Someone else owns it, and the caller waits.
    rw [if_neg (by rwa [howner]), if_neg hown]
    have h' := (h.blockOn hinv hc (.mutex m)).leave
    simp only [Sched.setWaitList, Sched.waitList, taskSetBlock_mutex] at h'
    simp only [taskSetBlock_waitNode, taskSetBlock_mutex]
    exact h'

/-- The hand-off of a mutex: the first waiter leaves the wait list, becomes ready and owns
the mutex. -/
theorem Refines.handOff (h : Refines s a) (hinv : a.Inv) {m : M} {w : T} {ws : List T}
    (count : Int) (hline : a.line (.wait (.mutex m)) = w :: ws) {s' : Sched T M S}
    (hs' : s' = taskSetReady
      ({ s with waitNode := (listRemove s.waitNode (s.mutex m).waitList w).1 }.setMutex m
        { owner := none, lockedCount := count,
          waitList := (listRemove s.waitNode (s.mutex m).waitList w).2 }) w) :
    Refines (s'.setMutex m { s'.mutex m with lockedCount := 1, owner := some w })
      { { a with line := take a.line (.wait (.mutex m)) w }.ready w with
        owner := update a.owner m (some w), lockedCount := update a.lockedCount m 1 } := by
  have hm : w ∈ a.line (.wait (.mutex m)) := by simp [hline]
  -- The stores up to the removal, then the removal, the wake-up and the last store.
  have h₁ := (h.setMutex m none count).leaveWait hline
  simp only [Sched.setWaitList, Sched.waitList, Sched.setMutex, Function.update_self,
    Function.update_idem] at h₁
  have h₂ := (h₁.setReady (t := w) fun _ p => h.apart.not_mem_take hm).setMutex m (some w) 1
  subst hs'
  have hi := hinv.ne_idle hm
  simpa [Queues.ready, hi, Queues.setTask, Sched.setMutex] using h₂

theorem Refines.unlock (h : Refines s a) (hinv : a.Inv) (m : M) :
    StretchRel Refines (mutexUnlock m s) (a.unlock m) := by
  have hcurr : taskCurrent s = a.curr := h.curr
  have hcount := h.lockedCount m
  have howner := h.owner m
  have hwait := h.waitCount (.mutex m)
  have hlist := h.wait (.mutex m)
  simp only [Sched.waitList] at hwait hlist
  unfold mutexUnlock Queues.unlock
  dsimp only
  rw [hcurr, howner]
  by_cases hown : a.owner m = some a.curr
  · rw [if_pos hown, if_pos hown]
    by_cases hlast : toInt (a.lockedCount m - 1) = 0
    · rw [if_pos (by rwa [hcount]), if_pos hlast]
      cases hline : a.line (.wait (.mutex m)) with
      | nil =>
        -- Nobody waits, and the mutex is free.
        rw [if_neg (by simp [hwait, hline]), hcount, hlast]
        exact .returned (h.setMutex m none 0)
      | cons w ws =>
        -- The first waiter owns it next.
        rw [hline] at hlist
        rw [if_pos (by simp [hwait, hline]), listRemoveFirst_eq hlist]
        exact (h.handOff hinv _ hline rfl).leave
    · rw [if_neg (by rwa [hcount]), if_neg hlast, ← hcount, ← howner]
      exact .returned (h.setLockedCount m _)
  · -- A task that does not own the mutex changes nothing.
    rw [if_neg hown, if_neg hown]
    exact .returned h

theorem Refines.semWait (h : Refines s a) (hinv : a.Inv) (hc : a.curr ≠ idleTask) (x : S) :
    StretchRel Refines (StartKernel.semWait x s) (a.semWait x) := by
  have hcurr : taskCurrent s = a.curr := h.curr
  have hcount := h.semCount x
  unfold StartKernel.semWait Queues.semWait
  dsimp only
  rw [hcurr]
  by_cases htoken : a.semCount x > 0
  · -- The caller takes one of the tokens.
    rw [if_pos (by rwa [hcount]), if_pos htoken, ← hcount]
    exact .returned (h.setSem x _)
  · -- There is none, and the caller waits.
    rw [if_neg (by rwa [hcount]), if_neg htoken]
    have h' := (h.blockOn hinv hc (.sem x)).leave
    simp only [Sched.setWaitList, Sched.waitList, taskSetBlock_sem] at h'
    simp only [taskSetBlock_waitNode, taskSetBlock_sem]
    exact h'

theorem Refines.semNotify (h : Refines s a) (x : S) :
    StretchRel Refines (StartKernel.semNotify x s) (a.semNotify x) := by
  have hwait := h.waitCount (.sem x)
  have hlist := h.wait (.sem x)
  simp only [Sched.waitList] at hwait hlist
  unfold StartKernel.semNotify Queues.semNotify
  dsimp only
  cases hline : a.line (.wait (.sem x)) with
  | nil =>
    -- Nobody waits, and the token is kept.
    rw [if_neg (by simp [hwait, hline]), ← h.semCount]
    exact .returned (h.setSem x _)
  | cons w ws =>
    have hm : w ∈ a.line (.wait (.sem x)) := by simp [hline]
    rw [hline] at hlist
    rw [if_pos (by simp [hwait, hline]), listRemoveFirst_eq hlist]
    have h' := h.leaveWait hline
    exact (h'.setReady fun _ p => h.apart.not_mem_take hm).leave

/-! ### The simulation -/

theorem Refines.firstWaiter (h : Refines s a) (o : Obj M S) :
    s.firstWaiter o = a.firstWaiter o := by
  have hcount := h.waitCount o
  unfold Sched.firstWaiter Queues.firstWaiter listFirst
  rw [(h.wait o).first]
  split
  · rename_i hz
    simp [hcount.mp hz]
  · rfl

/-- Both machines read the same outcome off an operation. -/
theorem Refines.outcome (h : Refines s a) (t : T) (c : Call M S) :
    s.outcome t c = a.outcome t c := by
  cases c <;>
    simp only [Sched.outcome, Queues.outcome, h.owner, h.lockedCount, h.semCount, h.firstWaiter]

/-- The states that the simulation relates. -/
def Matches (s : Sched T M S) (a : Queues T M S) : Prop := Refines s a ∧ a.Inv

/-- A stretch of the kernel that refines one of the lines keeps their invariant. -/
theorem StretchRel.matches {r : Stretch (Sched T M S) Rest} {r' : Stretch (Queues T M S) Rest}
    (h : StretchRel Refines r r') (hinv : r'.state.Inv) : StretchRel Matches r r' := by
  cases h with
  | returned h => exact .returned ⟨h, hinv⟩
  | suspended h => exact .suspended ⟨h, hinv⟩

/-- Each operation of the kernel refines the operation on the lines. -/
theorem Refines.start (h : Refines s a) (hinv : a.Inv) {c : Call M S}
    (hmay : (queues (T := T)).may c a = true) :
    StretchRel Refines (kernelStart c s) (Queues.start c a) := by
  have hc : c ≠ .timer → a.curr ≠ idleTask := fun hne => Queues.ne_idle_of_may hmay hne
  cases c with
  | schedYield => exact h.yield hinv (hc (by simp))
  | msleep ms => exact h.msleep hinv (hc (by simp)) ms
  | mutexLock m => exact h.lock hinv (hc (by simp)) m
  | mutexUnlock m => exact h.unlock hinv m
  | semWait x => exact h.semWait hinv (hc (by simp)) x
  | semNotify x => exact h.semNotify x
  | timer => exact h.timer hinv

theorem Refines.resume (h : Refines s a) (k : Rest) :
    StretchRel Refines (kernelResume k s) (Queues.resume k a) := by
  cases k with
  | leave => exact .returned h
  | sleepPass => exact h.timerSleep

/-- The kernel simulates the lines of tasks, and keeps their invariant. -/
theorem kernel_simulates :
    Simulates (kernel : Suspend.System (Sched T M S) T (Call M S) Rest (Event T M S)) queues
      Matches SleepFits where
  curr _ _ h := h.1.curr
  may c s a h := by simp [kernel, queues, taskCurrent, h.1.curr]
  note t c s a h := by simp [kernel, queues, h.1.outcome]
  finish _ _ := rfl
  start c s a hfit hmay h := by
    have hmay' : (queues (T := T)).may c a = true := by
      simpa [kernel, queues, taskCurrent, h.1.curr] using hmay
    exact StretchRel.matches (h.1.start h.2 hmay') (h.2.start hfit hmay')
  resume k _ _ h := StretchRel.matches (h.1.resume k) (h.2.resume k)

end StartKernel
