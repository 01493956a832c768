import StartKernel.Proofs.Sleep

/-!
# `StartKernel.Proofs.TaskState`: what the state of a task tells

A task record has a `state`. `Queues.Tells a t` says that the state of the task `t` tells where it
stands: it runs exactly when it is current, and it is ready, asleep or waiting exactly when it is
in such a line.

Most operations move one task, and every other task tells what it told before
(`Tells.of_move`). `Steady.told_dispatch` is about the switch at the end: the next task runs, and
the question is what the task that is switched out tells.

* `Inv.told_start`, `Inv.told_resume`: the condition under which an operation keeps the states
  right. A task that blocks on a mutex or a semaphore, a task whose slice ends while nobody else is
  ready, a sleep that wraps, and the idle task that is switched out leave a wrong state behind.
* `told_run`: in every run of the kernel all states are right exactly when all steps meet the
  condition.
* `told_fails`: the run in which a task blocks on a semaphore and its state still says running.
-/

set_option autoImplicit false
set_option linter.unusedSectionVars false

namespace StartKernel

open Function (update)
open Suspend (Stretch run step step_cases Meets ConfigRel)
open Placement (take put mem_take mem_put)

variable {T M S : Type} [DecidableEq T] [HasIdle T] [DecidableEq M] [DecidableEq S]

/-- The state of a task that stands in a line and is not current. -/
def Place.state : Place M S → TaskState
  | .ready => .ready
  | .sleep => .sleep
  | .wait _ => .waiting

namespace Queues

variable {a b : Queues T M S} {t u x : T} {p q : Place M S}

/-- The state of the task tells where it stands. -/
structure Tells (a : Queues T M S) (t : T) : Prop where
  running : (a.task t).state = .running ↔ t = a.curr
  sleep : (a.task t).state = .sleep ↔ t ∈ a.line .sleep
  waiting : (a.task t).state = .waiting ↔ ∃ o, t ∈ a.line (.wait o)
  ready : (a.task t).state = .ready ↔ t ∈ a.line .ready ∧ t ≠ a.curr

/-- The state of every task tells where it stands. -/
def Told (a : Queues T M S) : Prop := ∀ t, a.Tells t

/-- Nothing changes for the task. -/
theorem Tells.congr (hs : (b.task t).state = (a.task t).state)
    (hl : ∀ p, t ∈ b.line p ↔ t ∈ a.line p) (hc : t = b.curr ↔ t = a.curr) :
    b.Tells t ↔ a.Tells t := by
  constructor
  · intro h
    obtain ⟨h₁, h₂, h₃, h₄⟩ := h
    simp only [hs, hl, hc, ne_eq] at h₁ h₂ h₃ h₄
    exact ⟨h₁, h₂, h₃, h₄⟩
  · intro h
    obtain ⟨h₁, h₂, h₃, h₄⟩ := h
    simp only [← hs, ← hl, ← hc, ne_eq] at h₁ h₂ h₃ h₄
    exact ⟨h₁, h₂, h₃, h₄⟩

/-- The current task tells where it stands exactly when its state is running. -/
theorem Inv.tells_curr (h : Inv a) : a.Tells a.curr ↔ (a.task a.curr).state = .running := by
  constructor
  · exact fun ht => ht.running.mpr rfl
  · intro hs
    -- The current task stands in the ready line, or nowhere.
    have hnot : ∀ p, p ≠ .ready → a.curr ∉ a.line p := by
      intro p hp hm
      exact hp (h.placed.disjoint _ _ _ hm (h.curr_mem (h.ne_idle hm)))
    refine ⟨by simp [hs], ?_, ?_, by simp [hs]⟩
    · simp [hs, hnot .sleep (by simp)]
    · simp only [hs, reduceCtorEq, false_iff]
      rintro ⟨o, ho⟩
      exact hnot (.wait o) (by simp) ho

/-- Any other task in a line tells where it stands exactly when it has the state of the line. -/
theorem Steady.tells_place (h : Steady a) (ht : t ∈ a.line p) (hc : t ≠ a.curr) :
    a.Tells t ↔ (a.task t).state = p.state := by
  have honly : ∀ q, t ∈ a.line q ↔ q = p :=
    fun q => ⟨fun hq => h.placed.disjoint _ _ _ hq ht, fun hq => hq ▸ ht⟩
  constructor
  · intro htell
    cases p with
    | ready => exact htell.ready.mpr ⟨ht, hc⟩
    | sleep => exact htell.sleep.mpr ht
    | wait o => exact htell.waiting.mpr ⟨o, ht⟩
  · intro hs
    cases p <;> exact ⟨by simp [hs, hc, Place.state], by simp [hs, honly, Place.state],
      by simp [hs, honly, Place.state], by simp [hs, honly, hc, Place.state]⟩

/-! ### The switch at the end of an operation -/

/-- After a switch, all tasks tell where they stand exactly when the task does that is switched
out. -/
theorem Steady.told_dispatch (h : Steady a) (hn : a.next ≠ a.curr)
    (hall : ∀ t, t ≠ a.curr → a.Tells t) : a.dispatch.1.Told ↔ a.dispatch.1.Tells a.curr := by
  constructor
  · exact fun htold => htold a.curr
  · intro hout t
    by_cases hc : t = a.curr
    · rw [hc]
      exact hout
    · by_cases ht : t = a.next
      · have hcurr := h.dispatch.tells_curr
        rw [dispatch_curr] at hcurr
        rw [ht]
        exact hcurr.mpr (dispatch_state_next hn)
      · refine (Tells.congr ?_ (fun p => ?_) ?_).mpr (hall t hc)
        · rw [dispatch_task_of_ne ht]
        · rw [dispatch_line]
        · rw [dispatch_curr]
          exact ⟨fun he => absurd he ht, fun he => absurd he hc⟩

/-- A move of one task: every other task tells what it told before. -/
theorem Tells.of_move (h : Steady a) (ht : a.Tells t) (hne : t ≠ x)
    (hl : b.line = put (take a.line p x) q x) (hs : (b.task t).state = (a.task t).state)
    (hc : b.curr = a.curr) : b.Tells t := by
  refine (Tells.congr hs (fun r => ?_) (by rw [hc])).mpr ht
  rw [hl, mem_put, mem_take h.placed.toApart]
  simp [hne]

/-! ### The current task leaves the front -/

/-- The current task goes to the end of a line, and another task is dispatched. All tasks tell where
they stand exactly when the one that left has the state of its line. -/
theorem Inv.told_move (h : Inv a) (htold : a.Told) (hc : a.curr ≠ idleTask) (hb : Steady b)
    (hl : b.line = put (take a.line .ready a.curr) p a.curr) (hcurr : b.curr = a.curr)
    (hs : ∀ t, t ≠ a.curr → (b.task t).state = (a.task t).state)
    (hp : p = .ready → 1 < (a.line .ready).length) :
    b.dispatch.1.Told ↔ (b.task a.curr).state = p.state := by
  have hnext : b.next ≠ b.curr := by
    rw [hcurr]
    exact h.next_ne_of_move hc hl hp
  have hplace : a.curr ∈ b.dispatch.1.line p := by
    rw [dispatch_line, hl, mem_put]
    exact Or.inr ⟨rfl, rfl⟩
  rw [hb.told_dispatch hnext, hcurr, hb.dispatch.tells_place hplace, dispatch_task_of_ne]
  · rw [← hcurr]
    exact hnext.symm
  · rw [dispatch_curr, ← hcurr]
    exact hnext.symm
  · intro t ht
    rw [hcurr] at ht
    exact Tells.of_move h.toSteady (htold t) ht hl (hs t ht) hcurr

/-- The first waiter of an object becomes ready. All tasks still tell where they stand. -/
theorem Inv.told_wake (h : Inv a) (htold : a.Told) (hc : a.curr ≠ idleTask) {o : Obj M S} {w : T}
    (hw : w ∈ a.line (.wait o)) (hb : Steady b)
    (hl : b.line = put (take a.line (.wait o) w) .ready w) (hcurr : b.curr = a.curr)
    (hs : ∀ t, t ≠ w → (b.task t).state = (a.task t).state) (hsw : (b.task w).state = .ready) :
    b.dispatch.1.Told := by
  -- The waiter joins at the end, so the dispatch does not switch.
  have hready : b.line .ready = a.line .ready ++ [w] := by
    rw [hl, Placement.put_self, Placement.take_of_ne _ _ (by simp)]
  have hhead : (b.line .ready).head? = some b.curr := by
    rw [hready, hcurr, List.head?_append, h.curr_ready hc]
    rfl
  rw [dispatch_of_head hhead]
  intro t
  by_cases ht : t = w
  · subst ht
    have hne : t ≠ b.curr := by
      rintro rfl
      rw [hcurr] at hw
      exact absurd (h.placed.disjoint _ _ _ hw (h.curr_mem hc)) (by simp)
    have hmem : t ∈ b.line .ready := by simp [hready]
    exact (hb.tells_place hmem hne).mpr hsw
  · exact Tells.of_move h.toSteady (htold t) ht hl (hs t ht) hcurr

/-- Nothing changes for any task. -/
theorem Told.congr (hs : ∀ t, (b.task t).state = (a.task t).state) (hl : b.line = a.line)
    (hc : b.curr = a.curr) : b.Told ↔ a.Told :=
  forall_congr' fun t => Tells.congr (hs t) (fun p => by rw [hl]) (by rw [hc])

/-- The owners and the counters say nothing about where a task stands. -/
theorem Told.counters (h : a.Told) (owner : M → Option T) (lockedCount : M → Int)
    (semCount : S → Int) : ({ a with owner, lockedCount, semCount } : Queues T M S).Told :=
  (Told.congr (a := a) (b := { a with owner, lockedCount, semCount }) (fun _ => rfl) rfl rfl).mpr h

/-! ### The sleep pass -/

/-- No task is ready, and no sleeper becomes ready with the next tick. -/
def IdleStays (a : Queues T M S) : Prop :=
  a.line .ready = [] ∧ ∀ t ∈ a.line .sleep, a.due t = false

/-- After the sleep pass a task tells where it stands if it did before, or if it has become
ready. -/
theorem Inv.tells_sleepAll (h : Inv a) : a.sleepAll.Tells t ↔
    (t ∈ a.line .sleep ∧ a.due t = true) ∨ a.Tells t := by
  have hs := h.toSteady
  have hmem : ∀ p, t ∈ a.sleepAll.line p ↔
      if t ∈ a.line .sleep ∧ a.due t = true then p = .ready else t ∈ a.line p := by
    intro p
    rw [sleepAll_eq hs]
    exact mem_afterSleep hs.placed.toApart
  by_cases hdue : t ∈ a.line .sleep ∧ a.due t = true
  · -- A due sleeper has joined the ready line, and its state says so.
    have hready : t ∈ a.sleepAll.line .ready := by rw [hmem, if_pos hdue]
    have hne : t ≠ a.sleepAll.curr := by
      rw [sleepAll_curr hs]
      rintro rfl
      have hc := h.ne_idle hdue.1
      exact absurd (h.placed.disjoint _ _ _ hdue.1 (h.curr_mem hc)) (by simp)
    have hstate : (a.sleepAll.task t).state = .ready := by
      rw [sleepAll_eq hs, afterSleep_task_of_mem a hdue.1, hdue.2]
      rfl
    exact iff_of_true ((hs.sleepAll.tells_place hready hne).mpr hstate) (Or.inl hdue)
  · rw [or_iff_right hdue]
    refine Tells.congr ?_ (fun p => ?_) ?_
    · rw [sleepAll_eq hs]
      by_cases hm : t ∈ a.line .sleep
      · have hno : a.due t ≠ true := fun hd => hdue ⟨hm, hd⟩
        rw [afterSleep_task_of_mem a hm]
        simp only [if_neg hno]
      · rw [afterSleep_task_of_not_mem a hm]
    · rw [hmem, if_neg hdue]
    · rw [sleepAll_curr hs]

/-- The sleep pass of a task other than the idle one. The question is what this task tells. -/
theorem Inv.told_timerSleep (h : Inv a) (hc : a.curr ≠ idleTask)
    (hall : ∀ t, t ≠ a.curr → a.Tells t) : a.timerSleep.state.Told ↔ a.Tells a.curr := by
  have hs := h.toSteady
  -- The sleepers join at the end, so the first task stays the first.
  have hhead : (a.sleepAll.line .ready).head? = some a.sleepAll.curr := by
    rw [sleepAll_curr hs, sleepAll_eq hs, afterSleep_ready, List.head?_append, h.curr_ready hc]
    rfl
  unfold timerSleep
  rw [leave_state, dispatch_of_head hhead]
  constructor
  · intro htold
    refine (h.tells_sleepAll.mp (htold a.curr)).resolve_left fun hdue => ?_
    exact absurd (h.placed.disjoint _ _ _ hdue.1 (h.curr_mem hc)) (by simp)
  · intro hcurr t
    by_cases ht : t = a.curr
    · rw [ht]
      exact h.tells_sleepAll.mpr (Or.inr hcurr)
    · exact h.tells_sleepAll.mpr (Or.inr (hall t ht))

/-- A task whose state is running and that is not current does not tell where it stands. -/
theorem not_tells (hs : (a.task t).state = .running) (hc : t ≠ a.curr) : ¬ a.Tells t :=
  fun h => hc (h.running.mp hs)

/-- A dispatch that leaves the idle task leaves its state behind: it still says running. -/
theorem Steady.told_dispatch_idle (h : Steady a) (htold : a.Told) (hc : a.curr = idleTask) :
    a.dispatch.1.Told ↔ a.line .ready = [] := by
  have hrunning : (a.task idleTask).state = .running := (htold idleTask).running.mpr hc.symm
  cases hr : a.line .ready with
  | nil =>
    have hnext : a.next = a.curr := by
      unfold next
      rw [hr, hc]
      rfl
    rw [dispatch_of_eq hnext]
    exact iff_of_true htold rfl
  | cons x xs =>
    have hnext : a.next = x := by
      unfold next
      rw [hr]
      rfl
    have hx : idleTask ≠ a.next := by
      rw [hnext]
      exact (h.ne_idle (p := .ready) (by rw [hr]; exact List.mem_cons_self)).symm
    refine iff_of_false (fun hall => not_tells ?_ ?_ (hall idleTask)) (List.cons_ne_nil x xs)
    · rw [dispatch_task_of_ne hx]
      exact hrunning
    · rw [dispatch_curr]
      exact hx

/-- The sleep pass of the idle task. The idle task has to stay current. -/
theorem Inv.told_timerSleep_idle (h : Inv a) (htold : a.Told) (hc : a.curr = idleTask) :
    a.timerSleep.state.Told ↔ a.IdleStays := by
  have hs := h.toSteady
  have hpass : a.sleepAll.Told := fun t => h.tells_sleepAll.mpr (Or.inr (htold t))
  unfold timerSleep
  rw [leave_state, hs.sleepAll.told_dispatch_idle hpass ((sleepAll_curr hs).trans hc),
    sleepAll_eq hs, afterSleep_ready, List.append_eq_nil_iff, List.filter_eq_nil_iff]
  simp only [IdleStays, Bool.not_eq_true]

/-! ### A timer interrupt -/

/-- The condition on the state in front of a timer interrupt: the idle task stays current, and the
slice of a task does not end while it is the only ready one. -/
def TimerKeeps (a : Queues T M S) : Prop :=
  if a.curr = idleTask then a.IdleStays
  else ¬ (a.sliceOver = true ∧ (a.line .ready).length = 1)

/-- A change of a slice changes nothing that the tasks tell. -/
theorem told_setSlice (t : T) (k : Int) :
    (a.setTask t { a.task t with sliceTicks := k }).Told ↔ a.Told := by
  refine Told.congr (fun u => ?_) rfl rfl
  by_cases hu : u = t
  · subst hu
    rw [setTask_task, Function.update_self]
  · rw [setTask_task, Function.update_of_ne hu]

/-- In the middle of a slice, and for the idle task, the first half of a timer interrupt only
counts. -/
theorem afterSlice_eq (h : a.sliceOver = false ∨ a.curr = idleTask) :
    ∃ k, a.afterSlice = a.setTask a.curr { a.task a.curr with sliceTicks := k } := by
  unfold Queues.afterSlice
  split
  · rename_i hover
    have hc : a.curr = idleTask := h.resolve_left (by simp [hover])
    rw [hc, block_idle, ready_idle]
    exact ⟨_, rfl⟩
  · exact ⟨_, rfl⟩

/-- A timer interrupt of the idle task. -/
theorem Inv.told_timer_idle (h : Inv a) (htold : a.Told) (hc : a.curr = idleTask) :
    a.timer.state.Told ↔ a.IdleStays := by
  obtain ⟨k, hk⟩ := afterSlice_eq (Or.inr hc)
  have hcount : a.afterSlice.Told := by
    rw [hk]
    exact (told_setSlice a.curr k).mpr htold
  have hline : a.afterSlice.line = a.line := by
    rw [hk]
    rfl
  have hcurr : a.afterSlice.curr = idleTask := by rw [afterSlice_curr, hc]
  by_cases hswitch : a.sliceEndSwitches
  · -- The end of the slice switches to a ready task.
    have hready : a.line .ready ≠ [] := by
      have hlen := hswitch.2
      rw [if_pos hc] at hlen
      exact List.ne_nil_of_length_pos hlen
    have hnext : a.afterSlice.next ≠ a.afterSlice.curr := by
      unfold next
      rw [hline, hcurr]
      cases hr : a.line .ready with
      | nil => exact absurd hr hready
      | cons x xs => exact h.ne_idle (p := .ready) (by rw [hr]; exact List.mem_cons_self)
    rw [timer_state_of_switch hswitch.1 hnext, h.afterSlice.told_dispatch_idle hcount hcurr, hline]
    exact iff_of_false hready fun hstays => hready hstays.1
  · have hinv : Inv a.afterSlice := ⟨h.afterSlice, Or.inl hcurr⟩
    -- The idle task does not sleep, so no sleeper has lost a tick yet.
    have hdue : ∀ t ∈ a.line .sleep, a.afterSlice.due t = a.due t := by
      intro t ht
      have hne : t ≠ a.curr := hc ▸ h.ne_idle ht
      unfold due
      rw [hk, setTask_task, Function.update_of_ne hne]
    rw [h.timer_eq hswitch, hinv.told_timerSleep_idle hcount hcurr]
    unfold IdleStays
    rw [hline]
    exact and_congr_right fun _ => forall₂_congr fun t ht => by rw [hdue t ht]

/-- A timer interrupt of another task. -/
theorem Inv.told_timer_task (h : Inv a) (htold : a.Told) (hc : a.curr ≠ idleTask) :
    a.timer.state.Told ↔ ¬ (a.sliceOver = true ∧ (a.line .ready).length = 1) := by
  by_cases hover : a.sliceOver = true
  · -- At the end of its slice the task goes to the end of the ready line.
    have hline : a.afterSlice.line = put (take a.line .ready a.curr) .ready a.curr := by
      unfold Queues.afterSlice
      rw [if_pos hover, ready_line hc, block_line hc, setTask_line]
    have hother : ∀ t, t ≠ a.curr → (a.afterSlice.task t).state = (a.task t).state := by
      intro t ht
      unfold Queues.afterSlice
      rw [if_pos hover, ready_task_of_ne ht, block_task, setTask_task, Function.update_of_ne ht]
    have hstate : (a.afterSlice.task a.curr).state = .ready := by
      unfold Queues.afterSlice
      rw [if_pos hover, ready_state hc]
    by_cases hone : (a.line .ready).length = 1
    · -- It is the first one there, and its state says ready.
      have hno : ¬ a.sliceEndSwitches := by
        rintro ⟨-, hlen⟩
        rw [if_neg hc] at hlen
        omega
      have hnext : a.afterSlice.next = a.afterSlice.curr := by
        rw [afterSlice_curr]
        exact h.afterSlice_next fun hlen => hno ⟨hover, hlen⟩
      have hinv : Inv a.afterSlice := by
        have hd := h.afterSlice.dispatch
        rwa [dispatch_of_eq hnext] at hd
      have hall : ∀ t, t ≠ a.afterSlice.curr → a.afterSlice.Tells t := by
        intro t ht
        rw [afterSlice_curr] at ht
        exact Tells.of_move h.toSteady (htold t) ht hline (hother t ht) afterSlice_curr
      rw [h.timer_eq hno, hinv.told_timerSleep (by rwa [afterSlice_curr]) hall, hinv.tells_curr,
        afterSlice_curr, hstate]
      simp [hover, hone]
    · -- Another task is dispatched.
      have hlen : 1 < (a.line .ready).length := by
        have hpos := List.length_pos_of_mem (h.curr_mem hc)
        omega
      have hnext : a.afterSlice.next ≠ a.afterSlice.curr := by
        rw [afterSlice_curr]
        exact h.next_ne_of_move hc hline fun _ => hlen
      rw [timer_state_of_switch hover hnext,
        h.told_move htold hc h.afterSlice hline afterSlice_curr hother fun _ => hlen, hstate]
      exact iff_of_true rfl fun hboth => hone hboth.2
  · -- In the middle of the slice the task stays at the front.
    have hover' : a.sliceOver = false := Bool.not_eq_true _ ▸ hover
    obtain ⟨k, hk⟩ := afterSlice_eq (Or.inl hover')
    have hcount : a.afterSlice.Told := by
      rw [hk]
      exact (told_setSlice a.curr k).mpr htold
    have hinv : Inv a.afterSlice := by
      refine ⟨h.afterSlice, Or.inr ?_⟩
      rw [hk]
      exact h.curr_ready hc
    rw [h.timer_eq fun hswitch => hover hswitch.1,
      hinv.told_timerSleep (by rwa [afterSlice_curr]) fun t _ => hcount t]
    exact iff_of_true (hcount _) fun hboth => hover hboth.1

/-- A timer interrupt, and what the tasks tell behind it. -/
theorem Inv.told_timer (h : Inv a) (htold : a.Told) : a.timer.state.Told ↔ a.TimerKeeps := by
  unfold TimerKeeps
  split
  · rename_i hc
    exact h.told_timer_idle htold hc
  · rename_i hc
    exact h.told_timer_task htold hc

/-! ### The operations -/

/-- The condition on the state in front of an operation. Nobody blocks on a mutex or on a
semaphore, and a sleep fits. -/
def Keeps (a : Queues T M S) : Call M S → Prop
  | .mutexLock m => a.lockedCount m = 0 ∨ a.owner m = some a.curr
  | .semWait x => 0 < a.semCount x
  | .msleep ms => ms ≤ 4294967286
  | .timer => a.TimerKeeps
  | _ => True

/-- A task that blocks in a wait line keeps the state running. -/
theorem Inv.not_told_wait (h : Inv a) (htold : a.Told) (hc : a.curr ≠ idleTask) (o : Obj M S) :
    ¬ (leave { a.block a.curr with
      line := put (a.block a.curr).line (.wait o) a.curr }).state.Told := by
  -- `mutex_lock` and `sem_wait` store no state, so it is the one from before.
  have hstate : (a.task a.curr).state = .running := (htold a.curr).running.mpr rfl
  rw [leave_state, h.told_move htold hc (h.wait hc o) (p := .wait o) ?_ block_curr ?_ (by simp)]
  · rw [block_task, hstate]
    exact fun he => by cases he
  · rw [block_line hc]
  · intro t _
    rw [block_task]

/-- After `yield` all tasks tell where they stand. -/
theorem Inv.told_yield (h : Inv a) (htold : a.Told) (hc : a.curr ≠ idleTask) :
    a.yield.state.Told := by
  unfold Queues.yield
  split
  · rename_i hlen
    rw [leave_state, h.told_move htold hc (h.requeue hc) (p := .ready) ?_ ?_ ?_ fun _ => hlen]
    · exact ready_state hc
    · rw [ready_line hc, block_line hc]
    · rw [ready_curr, block_curr]
    · intro t ht
      rw [ready_task_of_ne ht, block_task]
  · exact htold

/-- After a sleep that fits all tasks tell where they stand. -/
theorem Inv.told_msleep (h : Inv a) (htold : a.Told) (hc : a.curr ≠ idleTask) {ms : Nat}
    (hms : ms ≤ 4294967286) : (a.msleep ms).state.Told := by
  rw [msleep_eq hms, leave_state,
    h.told_move htold hc (h.fallAsleep hc hms) (p := .sleep) ?_ ?_ ?_ (by simp)]
  · simp only [setTask_task, Function.update_self, Place.state]
  · rw [setTask_line, block_line hc]
  · rw [setTask_curr]
    exact block_curr
  · intro t ht
    rw [setTask_task, Function.update_of_ne ht, block_task]

/-- A sleep whose rounding wraps takes the caller out of the ready line, and its state still says
running. -/
theorem Inv.not_told_msleep (h : Inv a) (htold : a.Told) (hc : a.curr ≠ idleTask) {ms : Nat}
    (hms : 4294967286 < ms) (hword : ms < 2 ^ 32) : ¬ (a.msleep ms).state.Told := by
  have hticks : ticks ms = 0 := by
    unfold ticks
    split <;> omega
  have hnext : (a.block a.curr).next ≠ a.curr := by
    refine h.next_ne_of_erase hc (r := []) ?_ (Or.inl rfl)
    rw [block_line hc, Placement.take_self, List.append_nil]
  unfold Queues.msleep
  dsimp only
  rw [if_pos hticks, leave_state]
  intro hall
  refine not_tells ?_ ?_ (hall a.curr)
  · rw [dispatch_task_of_ne hnext.symm, block_task]
    exact (htold a.curr).running.mpr rfl
  · rw [dispatch_curr]
    exact hnext.symm

theorem Inv.told_lock (h : Inv a) (htold : a.Told) (hc : a.curr ≠ idleTask) (m : M) :
    (a.lock m).state.Told ↔ a.lockedCount m = 0 ∨ a.owner m = some a.curr := by
  unfold Queues.lock
  split
  · rename_i hfree
    exact iff_of_true (htold.counters _ _ _) (Or.inl hfree)
  · rename_i htaken
    split
    · rename_i hown
      exact iff_of_true (htold.counters _ _ _) (Or.inr hown)
    · rename_i hother
      exact iff_of_false (h.not_told_wait htold hc (.mutex m)) (by simp [htaken, hother])

theorem Inv.told_semWait (h : Inv a) (htold : a.Told) (hc : a.curr ≠ idleTask) (x : S) :
    (a.semWait x).state.Told ↔ 0 < a.semCount x := by
  unfold Queues.semWait
  split
  · rename_i htoken
    exact iff_of_true (htold.counters _ _ _) htoken
  · rename_i hnone
    exact iff_of_false (h.not_told_wait htold hc (.sem x)) hnone

/-- After the first waiter has become ready all tasks tell where they stand. -/
theorem Inv.told_wakeFirst (h : Inv a) (htold : a.Told) (hc : a.curr ≠ idleTask) {o : Obj M S}
    {w : T} {ws : List T} (hw : a.line (.wait o) = w :: ws) (owner : M → Option T)
    (lockedCount : M → Int) :
    (leave { { a with line := take a.line (.wait o) w }.ready w with
      owner, lockedCount }).state.Told := by
  have hmem : w ∈ a.line (.wait o) := by rw [hw]; exact List.mem_cons_self
  have hi := h.ne_idle hmem
  rw [leave_state]
  refine h.told_wake htold hc hmem ((h.wakeFirst hw).of_eq rfl fun _ _ => rfl) ?_ ?_ ?_ ?_
  · exact ready_line hi
  · exact ready_curr
  · exact fun t ht => congrArg TaskT.state (ready_task_of_ne ht)
  · exact ready_state hi

theorem Inv.told_unlock (h : Inv a) (htold : a.Told) (hc : a.curr ≠ idleTask) (m : M) :
    (a.unlock m).state.Told := by
  unfold Queues.unlock
  split
  · split
    · split
      · rename_i w ws hw
        exact h.told_wakeFirst htold hc hw _ _
      · exact htold.counters _ _ _
    · exact htold.counters _ _ _
  · exact htold

theorem Inv.told_semNotify (h : Inv a) (htold : a.Told) (hc : a.curr ≠ idleTask) (x : S) :
    (a.semNotify x).state.Told := by
  unfold Queues.semNotify
  split
  · rename_i w ws hw
    exact h.told_wakeFirst htold hc hw _ _
  · exact htold.counters _ _ _

/-- After an operation all tasks tell where they stand exactly when its condition was met. -/
theorem Inv.told_start (h : Inv a) (htold : a.Told) {c : Call M S}
    (hword : ∀ ms, c = .msleep ms → ms < 2 ^ 32) (hmay : queues.may c a = true) :
    (Queues.start c a).state.Told ↔ a.Keeps c := by
  have hc : c ≠ .timer → a.curr ≠ idleTask := fun hne => Queues.ne_idle_of_may hmay hne
  cases c with
  | schedYield => exact iff_of_true (h.told_yield htold (hc (by simp))) trivial
  | msleep ms =>
    by_cases hms : ms ≤ 4294967286
    · exact iff_of_true (h.told_msleep htold (hc (by simp)) hms) hms
    · exact iff_of_false (h.not_told_msleep htold (hc (by simp)) (by omega) (hword ms rfl)) hms
  | mutexLock m => exact h.told_lock htold (hc (by simp)) m
  | mutexUnlock m => exact iff_of_true (h.told_unlock htold (hc (by simp)) m) trivial
  | semWait x => exact h.told_semWait htold (hc (by simp)) x
  | semNotify x => exact iff_of_true (h.told_semNotify htold (hc (by simp)) x) trivial
  | timer => exact h.told_timer htold

/-- After the rest of an operation all tasks tell where they stand, unless it is the sleep pass of
an idle task that does not stay current. -/
theorem Inv.told_resume (h : Inv a) (htold : a.Told) (k : Rest) : (Queues.resume k a).state.Told ↔
    (k = .sleepPass → a.curr = idleTask → a.IdleStays) := by
  cases k with
  | leave => exact iff_of_true htold fun he => by cases he
  | sleepPass =>
    show a.timerSleep.state.Told ↔ _
    by_cases hc : a.curr = idleTask
    · rw [h.told_timerSleep_idle htold hc]
      simp [hc]
    · rw [h.told_timerSleep hc fun t _ => htold t]
      exact iff_of_true (htold _) fun _ he => absurd he hc

end Queues

/-! ### The kernel -/

/-- The `state` of the task tells where the task stands. -/
structure Sched.Tells (s : Sched T M S) (t : T) : Prop where
  running : (s.task t).state = .running ↔ t = s.currTask
  sleep : (s.task t).state = .sleep ↔ s.InList .sleep t
  waiting : (s.task t).state = .waiting ↔ ∃ o, s.InList (.wait o) t
  ready : (s.task t).state = .ready ↔ s.InList .ready t ∧ t ≠ s.currTask

/-- The `state` of every task tells where the task stands. -/
def Sched.Told (s : Sched T M S) : Prop := ∀ t, s.Tells t

/-- No task is ready, and no sleeper becomes ready with the next tick. -/
def Sched.IdleStays (s : Sched T M S) : Prop :=
  listCount s.readyList = 0 ∧ ∀ t, s.InList .sleep t → (s.task t).sleepTicks ≠ 1

/-- The condition on the state in front of a step: nobody blocks on a mutex or on a semaphore, a
sleep does not wrap, the slice of a task does not end while it is the only ready one, and the idle
task is not switched out. -/
def KeepsStates (c : KConfig T M S) : KLabel M S → Prop
  | .start (.mutexLock m) =>
    (c.st.mutex m).lockedCount = 0 ∨ (c.st.mutex m).owner = some c.st.currTask
  | .start (.semWait x) => 0 < (c.st.sem x).count
  | .start (.msleep ms) => ms ≤ 4294967286
  | .start .timer =>
    if c.st.currTask = idleTask then c.st.IdleStays
    else ¬ (toInt ((c.st.task c.st.currTask).sliceTicks - 1) = 0 ∧ listCount c.st.readyList = 1)
  | .start _ => True
  | .resume => ∀ a, c.pend c.st.currTask = some (a, .sleepPass) → c.st.currTask = idleTask →
    c.st.IdleStays

/-- The `ms` of a sleep is a `uint32_t`. -/
def MsFits : KLabel M S → Prop
  | .start (.msleep ms) => ms < 2 ^ 32
  | _ => True

section

variable {s : Sched T M S} {a : Queues T M S} {c c' : KConfig T M S} {l : KLabel M S}
  {ls : List (KLabel M S)}

/-- The tasks of the kernel tell what the tasks of the lines tell. -/
theorem Refines.told_iff (h : Refines s a) : s.Told ↔ a.Told := by
  refine forall_congr' fun t => ⟨fun ht => ?_, fun ht => ?_⟩
  · obtain ⟨h₁, h₂, h₃, h₄⟩ := ht
    simp only [h.task, h.curr, h.inList_iff] at h₁ h₂ h₃ h₄
    exact ⟨h₁, h₂, h₃, h₄⟩
  · obtain ⟨h₁, h₂, h₃, h₄⟩ := ht
    simp only [← h.task, ← h.curr, ← h.inList_iff] at h₁ h₂ h₃ h₄
    exact ⟨h₁, h₂, h₃, h₄⟩

theorem Refines.idleStays_iff (h : Refines s a) : s.IdleStays ↔ a.IdleStays := by
  have hcount : listCount s.readyList = ((a.line .ready).length : Int) := h.ready.count
  refine and_congr ?_ (forall_congr' fun t => ?_)
  · rw [hcount, ← List.length_eq_zero_iff]
    omega
  · rw [h.inList_iff, h.task]
    refine imp_congr_right fun _ => ?_
    simp [Queues.due]

/-- The condition on an operation of the kernel is the one on the lines. -/
theorem Refines.keeps_iff (h : Refines c.st a) (x : Call M S) :
    KeepsStates c (.start x) ↔ a.Keeps x := by
  cases x with
  | mutexLock m =>
    show (c.st.mutex m).lockedCount = 0 ∨ (c.st.mutex m).owner = some c.st.currTask ↔ _
    rw [h.lockedCount, h.owner, h.curr]
    rfl
  | semWait x =>
    show 0 < (c.st.sem x).count ↔ _
    rw [h.semCount]
    rfl
  | timer =>
    have hcount : listCount c.st.readyList = ((a.line .ready).length : Int) := h.ready.count
    show (if c.st.currTask = idleTask then c.st.IdleStays else _) ↔ a.TimerKeeps
    unfold Queues.TimerKeeps Queues.sliceOver
    rw [h.curr, h.task, hcount]
    split
    · exact h.idleStays_iff
    · rw [beq_iff_eq]
      refine not_congr (and_congr_right fun _ => ?_)
      omega
  | msleep ms => exact Iff.rfl
  | schedYield => exact Iff.rfl
  | mutexUnlock m => exact Iff.rfl
  | semNotify x => exact Iff.rfl

/-- One step of the kernel: all tasks still tell where they stand exactly when the step meets its
condition. -/
theorem told_step (hinv : SchedInv c.st) (htold : c.st.Told) (hms : MsFits l)
    (hstep : step kernel c l = some c') : c'.st.Told ↔ KeepsStates c l := by
  obtain ⟨a, href, ha⟩ := schedInv_iff.mp hinv
  have hlines := href.told_iff.mp htold
  rcases step_cases hstep with ⟨x, rfl, -, hmay, rfl⟩ | ⟨x, k, rfl, hp, rfl⟩
  · have hmay' : (queues (T := T)).may x a = true := by
      simpa [kernel, queues, taskCurrent, href.curr] using hmay
    have hms' : ∀ ms, x = .msleep ms → ms < 2 ^ 32 := by
      rintro ms rfl
      exact hms
    rw [Suspend.Config.settle_st]
    show (kernelStart x c.st).state.Told ↔ _
    rw [(href.start ha hmay').state.told_iff, ha.told_start hlines hms' hmay', href.keeps_iff]
  · rw [Suspend.Config.settle_st]
    show (kernelResume k c.st).state.Told ↔ _
    rw [(href.resume k).state.told_iff, ha.told_resume hlines]
    have hp' : c.pend c.st.currTask = some (x, k) := hp
    show _ ↔ ∀ a, c.pend c.st.currTask = some (a, .sleepPass) → _
    rw [hp', href.curr, href.idleStays_iff]
    constructor
    · intro hstays y hy
      exact hstays (Prod.mk.inj (Option.some.inj hy)).2
    · rintro hstays rfl
      exact hstays x rfl

/-- In every run of the kernel, all tasks tell where they stand in all states exactly when all steps
meet their condition. -/
theorem told_run (hinv : SchedInv c.st) (htold : c.st.Told) (hms : ∀ l ∈ ls, MsFits l)
    (hrun : run kernel c ls = some c') :
    (∀ ls', ls' <+: ls → ∀ c₁, run kernel c ls' = some c₁ → c₁.st.Told) ↔
      Meets kernel KeepsStates c ls := by
  refine Trace.meets_iff_of_run (K := fun c => SchedInv c.st) (I := fun c => c.st.Told) ?_ ?_ hinv
    htold hms hrun
  · exact fun c l c' hK hI hR hs => told_step hK hI hR hs
  · intro c l c' hK _ hP hs
    -- A step that meets its condition does not wrap a sleep.
    have hfit : SleepFits l := by
      cases l with
      | start x =>
        cases x with
        | msleep ms => exact hP
        | _ => trivial
      | resume => trivial
    exact step_schedInv hK hfit hs

end

/-! ### A state to start from -/

/-- Becoming ready changes the state of the tasks of the list, and nobody is dispatched. -/
theorem foldl_setReady_state (ts : List T) :
    ∀ s : Sched T M S, idleTask ∉ ts → (ts.foldl taskSetReady s).currTask = s.currTask ∧
      ∀ t, ((ts.foldl taskSetReady s).task t).state
        = if t ∈ ts then .ready else (s.task t).state := by
  induction ts with
  | nil => exact fun s _ => ⟨rfl, fun t => rfl⟩
  | cons t ts ih =>
    intro s hidle
    have ht : t ≠ idleTask := fun he => hidle (by simp [he])
    obtain ⟨hcurr, hstate⟩ := ih (taskSetReady s t) fun hm => hidle (by simp [hm])
    have hfirst : (taskSetReady s t).currTask = s.currTask ∧
        ∀ u, ((taskSetReady s t).task u).state = if u = t then .ready else (s.task u).state := by
      unfold taskSetReady
      rw [if_pos ht]
      refine ⟨rfl, fun u => ?_⟩
      by_cases hu : u = t
      · subst hu
        simp [Sched.setTask]
      · simp [Sched.setTask, hu]
    rw [List.foldl_cons]
    refine ⟨hcurr.trans hfirst.1, fun u => ?_⟩
    rw [hstate, hfirst.2]
    by_cases hu : u = t <;> by_cases hm : u ∈ ts <;> simp [hu, hm]

/-- When all tasks have become ready and the first one runs, they tell where they stand. -/
theorem readySched_told {ts : List T} (hnd : ts.Nodup) (hts : ∀ t, t ∈ ts ↔ t ≠ idleTask)
    (hne : ts ≠ []) (tokens : Int) : (readySched ts tokens : Sched T M S).Told := by
  obtain ⟨b, hb, hsteady, hready⟩ := foldl_setReady_refines (M := M) (S := S) hnd hts tokens
  have hidle : (idleTask : T) ∉ ts := fun h => (hts _).mp h rfl
  obtain ⟨hcurr, hstate⟩ := foldl_setReady_state ts (freshSched tokens : Sched T M S) hidle
  replace hcurr : b.curr = idleTask := hb.curr.symm.trans hcurr
  rw [hb.task] at hstate
  have hnext : b.next ≠ idleTask := by
    obtain ⟨x, xs, rfl⟩ := List.exists_cons_of_ne_nil hne
    unfold Queues.next
    rw [hready]
    exact (hts x).mp List.mem_cons_self
  refine hb.dispatch.1.told_iff.mpr ((hsteady.told_dispatch (by rwa [hcurr]) ?_).mpr ?_)
  · intro t ht
    rw [hcurr] at ht
    have hmem : t ∈ ts := (hts t).mpr ht
    refine (hsteady.tells_place (p := .ready) (by rwa [hready]) (by rwa [hcurr])).mpr ?_
    rw [hstate, if_pos hmem]
    rfl
  · -- The idle task has not run yet, and it stands nowhere.
    have hcreated : ∀ v, v ≠ .created → (b.dispatch.1.task b.curr).state ≠ v := by
      intro v hv he
      rw [Queues.dispatch_task_of_ne (by rw [hcurr]; exact hnext.symm), hcurr, hstate,
        if_neg hidle] at he
      exact hv he.symm
    have hnot : ∀ p, b.curr ∉ b.dispatch.1.line p := by
      intro p hp
      rw [Queues.dispatch_line] at hp
      exact hsteady.ne_idle hp hcurr
    have hout : b.curr ≠ b.dispatch.1.curr := by
      rw [Queues.dispatch_curr, hcurr]
      exact hnext.symm
    refine ⟨iff_of_false (hcreated _ (by simp)) hout,
      iff_of_false (hcreated _ (by simp)) (hnot .sleep),
      iff_of_false (hcreated _ (by simp)) ?_, iff_of_false (hcreated _ (by simp)) ?_⟩
    · rintro ⟨o, ho⟩
      exact hnot (.wait o) ho
    · exact fun hr => hnot .ready hr.1

/-- Two tasks that tell where they stand over a tick, a yield and a sleep. -/
theorem told_run_two_tasks :
    ∃ c' : KConfig (Fin 3) Unit Unit,
      run kernel (startConfig (readySched [1, 2] 0)) [.start .timer, .start .schedYield,
        .start (.msleep 25)] = some c' ∧
      ∀ ls', ls' <+: [.start .timer, .start .schedYield, .start (.msleep 25)] → ∀ c₁,
        run kernel (startConfig (readySched [1, 2] 0 : Sched (Fin 3) Unit Unit)) ls' = some c₁ →
        c₁.st.Told := by
  have hrun : (run kernel (startConfig (readySched [1, 2] 0 : Sched (Fin 3) Unit Unit))
      [.start .timer, .start .schedYield, .start (.msleep 25)]).isSome := by
    decide +kernel
  obtain ⟨c', hc'⟩ := Option.isSome_iff_exists.mp hrun
  have hslice : KeepsStates (startConfig (readySched [1, 2] 0 : Sched (Fin 3) Unit Unit))
      (.start .timer) := by
    unfold KeepsStates
    rw [if_neg (by decide)]
    decide +kernel
  have hmeets : Meets kernel KeepsStates
      (startConfig (readySched [1, 2] 0 : Sched (Fin 3) Unit Unit))
      [.start .timer, .start .schedYield, .start (.msleep 25)] :=
    ⟨hslice, fun _ _ => ⟨trivial, fun _ _ => ⟨show 25 ≤ 4294967286 by decide,
      fun _ _ => trivial⟩⟩⟩
  refine ⟨c', hc', (told_run (readySched_inv (by decide) (by decide) 0)
    (readySched_told (by decide) (by decide) (by decide) 0) ?_ hc').mpr hmeets⟩
  intro l hl
  simp only [List.mem_cons, List.not_mem_nil, or_false] at hl
  rcases hl with rfl | rfl | rfl
  · trivial
  · trivial
  · show 25 < 2 ^ 32
    decide

/-- The only task blocks on a semaphore without tokens. The idle task runs, and the state of the
blocked task still says running. -/
theorem told_fails :
    ∃ (c c' : KConfig (Fin 2) Unit Unit), SchedInv c.st ∧ c.st.Told ∧
      run kernel c [.start (.semWait ())] = some c' ∧ ¬ c'.st.Told := by
  have hrun : (run kernel (startConfig (readySched [1] 0 : Sched (Fin 2) Unit Unit))
      [.start (.semWait ())]).map (fun c => decide ((c.st.task 1).state = .running ∧
        c.st.currTask = 0)) = some true := by
    decide +kernel
  obtain ⟨c', hc', hval⟩ := Option.map_eq_some_iff.mp hrun
  obtain ⟨hstate, hcurr⟩ := of_decide_eq_true hval
  refine ⟨_, c', readySched_inv (by decide) (by decide) 0,
    readySched_told (by decide) (by decide) (by decide) 0, hc', fun htold => ?_⟩
  have hone : (1 : Fin 2) = c'.st.currTask := (htold 1).running.mp hstate
  rw [hcurr] at hone
  exact absurd hone (by decide)

end StartKernel
