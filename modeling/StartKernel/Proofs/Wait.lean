import StartKernel.Proofs.Scheduler

/-!
# `StartKernel.Proofs.Wait`: the objects with a wait line

A mutex or a semaphore is seen through its wait line, its owner and its count. An operation
changes the view of the object it is called on, and of no other object.

* `start_view` / `resume_view`: the frame of an operation.
* `lock_cases`, `unlock_cases`, `semWait_cases`, `semNotify_cases`: what an operation does to
  its own object, with the events that the history records.
* `Ordered.step`: over every step, the tasks that blocked on an object are those that were woken
  and then those that still wait, in this order.
-/

set_option autoImplicit false
set_option linter.unusedSectionVars false

namespace StartKernel

open Function (update)
open Suspend (Stretch step run step_cases)
open Placement (put take)

variable {T M S : Type} [DecidableEq T] [HasIdle T] [DecidableEq M] [DecidableEq S]

/-- What there is to see of an object. A semaphore has no owner. -/
structure View (T : Type) where
  line : List T
  owner : Option T
  count : Int

/-- The object an operation is called on. -/
def Call.obj : Call M S → Option (Obj M S)
  | .mutexLock m => some (.mutex m)
  | .mutexUnlock m => some (.mutex m)
  | .semWait x => some (.sem x)
  | .semNotify x => some (.sem x)
  | _ => none

namespace Queues

variable {a b : Queues T M S} {t w : T} {ws : List T}

/-- The view of an object. -/
def view (a : Queues T M S) : Obj M S → View T
  | .mutex m => ⟨a.line (.wait (.mutex m)), a.owner m, a.lockedCount m⟩
  | .sem x => ⟨a.line (.wait (.sem x)), none, a.semCount x⟩

@[simp] theorem view_line (a : Queues T M S) (o : Obj M S) :
    (a.view o).line = a.line (.wait o) := by
  cases o <;> rfl

/-- The view of an object reads its line, its owner and its count only. -/
theorem view_congr (hl : ∀ o, b.line (.wait o) = a.line (.wait o)) (ho : b.owner = a.owner)
    (hc : b.lockedCount = a.lockedCount) (hs : b.semCount = a.semCount) (o : Obj M S) :
    b.view o = a.view o := by
  cases o <;> simp [view, hl, ho, hc, hs]

@[simp] theorem view_setTask (v : TaskT) (o : Obj M S) : (a.setTask t v).view o = a.view o :=
  view_congr (fun _ => rfl) rfl rfl rfl o

@[simp] theorem view_ready (o : Obj M S) : (a.ready t).view o = a.view o := by
  unfold ready
  split
  · exact view_congr (by simp) rfl rfl rfl o
  · rfl

@[simp] theorem view_block (o : Obj M S) : (a.block t).view o = a.view o := by
  unfold block
  split
  · exact view_congr (by simp) rfl rfl rfl o
  · rfl

@[simp] theorem view_dispatch (o : Obj M S) : a.dispatch.1.view o = a.view o := by
  unfold dispatch
  split
  · exact view_congr (by simp) rfl rfl rfl o
  · rfl

@[simp] theorem view_leave (o : Obj M S) : a.leave.state.view o = a.view o := by
  rw [leave_state, view_dispatch]

/-- A round of the sleep loop moves a task between the sleep line and the ready line. -/
theorem view_sleepStep (o : Obj M S) : (a.sleepStep t).view o = a.view o := by
  unfold sleepStep
  dsimp only
  split
  · rw [view_ready]
    exact view_congr (by simp) rfl rfl rfl o
  · exact view_setTask _ o

theorem view_foldl_sleepStep (ts : List T) (o : Obj M S) :
    ∀ a : Queues T M S, (ts.foldl sleepStep a).view o = a.view o := by
  induction ts with
  | nil => exact fun _ => rfl
  | cons t ts ih =>
    intro a
    rw [List.foldl_cons, ih, view_sleepStep]

@[simp] theorem view_timerSleep (o : Obj M S) : a.timerSleep.state.view o = a.view o := by
  unfold timerSleep sleepAll
  rw [view_leave, view_foldl_sleepStep]

@[simp] theorem view_afterSlice (o : Obj M S) : a.afterSlice.view o = a.view o := by
  unfold afterSlice
  split <;> simp

theorem view_timer (o : Obj M S) : a.timer.state.view o = a.view o := by
  unfold timer
  -- The slice ends with a dispatch, and the sleep pass follows now or later.
  have hd := view_dispatch (a := a.afterSlice) o
  split
  · split
    · rename_i b hb
      rw [hb, view_afterSlice] at hd
      exact hd
    · rename_i b hb
      rw [hb, view_afterSlice] at hd
      rw [view_timerSleep, hd]
  · simp

/-! ### An operation and its own object -/

/-- A blocked current task is not the one to run next. -/
theorem Inv.leave_blocked (hinv : Inv a) (hc : a.curr ≠ idleTask) (line : Place M S → List T)
    (hr : line .ready = (a.line .ready).erase a.curr) :
    ∃ b, ({ a.block a.curr with line } : Queues T M S).leave = .suspended b .leave ∧
      ∀ o, b.view o = ({ a.block a.curr with line } : Queues T M S).view o := by
  have hnext : ({ a.block a.curr with line } : Queues T M S).next ≠ a.curr :=
    hinv.next_ne_of_erase hc (r := []) (by simpa using hr) (Or.inl rfl)
  unfold leave dispatch
  rw [if_pos (by simpa using hnext)]
  exact ⟨_, rfl, fun o => view_congr (fun _ => rfl) rfl rfl rfl o⟩

/-- The three outcomes of a lock: a free mutex, one more lock of the owner, a wait. -/
theorem lock_cases (hinv : Inv a) (hc : a.curr ≠ idleTask) (m : M) :
    (a.lockedCount m = 0 ∧ a.outcome a.curr (.mutexLock m) = [.pass a.curr (.mutex m)] ∧
      ∃ b, a.lock m = .returned b ∧ b.view (.mutex m) =
        ⟨a.line (.wait (.mutex m)), some a.curr, 1⟩) ∨
    (a.lockedCount m ≠ 0 ∧ a.owner m = some a.curr ∧
      a.outcome a.curr (.mutexLock m) = [] ∧
      ∃ b, a.lock m = .returned b ∧ b.view (.mutex m) =
        ⟨a.line (.wait (.mutex m)), some a.curr, toInt (a.lockedCount m + 1)⟩) ∨
    (a.lockedCount m ≠ 0 ∧ a.owner m ≠ some a.curr ∧
      a.outcome a.curr (.mutexLock m) = [.block a.curr (.mutex m)] ∧
      ∃ b, a.lock m = .suspended b .leave ∧ b.view (.mutex m) =
        ⟨a.line (.wait (.mutex m)) ++ [a.curr], a.owner m, a.lockedCount m⟩) := by
  unfold lock outcome
  by_cases h₀ : a.lockedCount m = 0
  · left
    rw [if_pos h₀]
    exact ⟨h₀, if_pos h₀, _, rfl, by simp [view]⟩
  right
  rw [if_neg h₀]
  by_cases ho : a.owner m = some a.curr
  · left
    rw [if_pos ho]
    exact ⟨h₀, ho, by simp [h₀, ho], _, rfl, by simp [view, ho]⟩
  right
  rw [if_neg ho]
  -- The caller has left the ready line, so the dispatch switches to another task.
  obtain ⟨b, hb, hv⟩ := hinv.leave_blocked hc
    (put (a.block a.curr).line (.wait (.mutex m)) a.curr) (by simp [hc])
  refine ⟨h₀, ho, by simp [h₀, ho], b, hb, ?_⟩
  rw [hv]
  simp [view, block, hc]

/-- The outcomes of an unlock: not the owner, an inner unlock, the last one with nobody
waiting, and the hand-off to the first waiter. -/
theorem unlock_cases (a : Queues T M S) (m : M) :
    (a.owner m ≠ some a.curr ∧ a.outcome a.curr (.mutexUnlock m) = [] ∧
      a.unlock m = .returned a) ∨
    (a.owner m = some a.curr ∧ toInt (a.lockedCount m - 1) ≠ 0 ∧
      a.outcome a.curr (.mutexUnlock m) = [] ∧
      (a.unlock m).state.view (.mutex m) =
        ⟨a.line (.wait (.mutex m)), some a.curr, toInt (a.lockedCount m - 1)⟩) ∨
    (a.owner m = some a.curr ∧ toInt (a.lockedCount m - 1) = 0 ∧
      a.line (.wait (.mutex m)) = [] ∧ a.outcome a.curr (.mutexUnlock m) = [] ∧
      (a.unlock m).state.view (.mutex m) = ⟨[], none, 0⟩) ∨
    (a.owner m = some a.curr ∧ toInt (a.lockedCount m - 1) = 0 ∧
      ∃ w ws, a.line (.wait (.mutex m)) = w :: ws ∧
        a.outcome a.curr (.mutexUnlock m) = [.wake w (.mutex m)] ∧
        (a.unlock m).state.view (.mutex m) = ⟨ws, some w, 1⟩) := by
  unfold unlock outcome firstWaiter
  by_cases ho : a.owner m = some a.curr
  · right
    rw [if_pos ho]
    by_cases h₁ : toInt (a.lockedCount m - 1) = 0
    · right
      rw [if_pos h₁]
      cases hl : a.line (.wait (.mutex m)) with
      | nil =>
        left
        exact ⟨ho, h₁, rfl, by simp [hl], by simp [view, Stretch.state, hl]⟩
      | cons w ws =>
        right
        -- Making the waiter ready keeps the view, also if it were the idle task.
        refine ⟨ho, h₁, w, ws, rfl, by simp [ho, h₁, hl], ?_⟩
        rw [view_leave]
        by_cases hw : w = idleTask <;> simp [view, ready, hw, hl, setTask]
    · left
      rw [if_neg h₁]
      exact ⟨ho, h₁, by simp [h₁], by simp [view, Stretch.state, ho]⟩
  · left
    exact ⟨ho, by simp [ho], if_neg ho⟩

/-- The two outcomes of a wait: a token, or a place in the line. -/
theorem semWait_cases (hc : a.curr ≠ idleTask) (x : S) :
    (0 < a.semCount x ∧ a.outcome a.curr (.semWait x) = [.pass a.curr (.sem x)] ∧
      (a.semWait x).state.view (.sem x) =
        ⟨a.line (.wait (.sem x)), none, toInt (a.semCount x - 1)⟩) ∨
    (¬ 0 < a.semCount x ∧ a.outcome a.curr (.semWait x) = [.block a.curr (.sem x)] ∧
      (a.semWait x).state.view (.sem x) =
        ⟨a.line (.wait (.sem x)) ++ [a.curr], none, a.semCount x⟩) := by
  unfold semWait outcome
  by_cases h₀ : 0 < a.semCount x
  · left
    rw [if_pos h₀]
    exact ⟨h₀, if_pos h₀, by simp [view, Stretch.state]⟩
  · right
    rw [if_neg h₀]
    refine ⟨h₀, if_neg h₀, ?_⟩
    rw [view_leave]
    simp [view, block, hc]

/-- The two outcomes of a notify: the first waiter gets the token, or the count does. -/
theorem semNotify_cases (a : Queues T M S) (x : S) :
    (a.line (.wait (.sem x)) = [] ∧ a.outcome a.curr (.semNotify x) = [] ∧
      (a.semNotify x).state.view (.sem x) = ⟨[], none, toInt (a.semCount x + 1)⟩) ∨
    (∃ w ws, a.line (.wait (.sem x)) = w :: ws ∧
      a.outcome a.curr (.semNotify x) = [.wake w (.sem x)] ∧
      (a.semNotify x).state.view (.sem x) = ⟨ws, none, a.semCount x⟩) := by
  unfold semNotify outcome firstWaiter
  cases hl : a.line (.wait (.sem x)) with
  | nil =>
    left
    exact ⟨rfl, by simp [hl], by simp [view, Stretch.state, hl]⟩
  | cons w ws =>
    right
    refine ⟨w, ws, rfl, by simp [hl], ?_⟩
    rw [view_leave, view_ready]
    simp [view, hl]

/-! ### An operation and the other objects -/

/-- A change of one mutex and its wait line keeps the view of the others. -/
theorem view_other_mutex {m : M} {o : Obj M S} (ho : o ≠ .mutex m)
    (hl : ∀ o', o' ≠ .mutex m → b.line (.wait o') = a.line (.wait o'))
    (hown : ∀ m', m' ≠ m → b.owner m' = a.owner m')
    (hc : ∀ m', m' ≠ m → b.lockedCount m' = a.lockedCount m') (hs : b.semCount = a.semCount) :
    b.view o = a.view o := by
  cases o with
  | mutex m' =>
    have hm : m' ≠ m := by simpa using ho
    simp [view, hl _ ho, hown m' hm, hc m' hm]
  | sem x => simp [view, hl _ ho, hs]

/-- A change of one semaphore and its wait line keeps the view of the others. -/
theorem view_other_sem {x : S} {o : Obj M S} (ho : o ≠ .sem x)
    (hl : ∀ o', o' ≠ .sem x → b.line (.wait o') = a.line (.wait o'))
    (hown : b.owner = a.owner) (hc : b.lockedCount = a.lockedCount)
    (hs : ∀ x', x' ≠ x → b.semCount x' = a.semCount x') : b.view o = a.view o := by
  cases o with
  | mutex m => simp [view, hl _ ho, hown, hc]
  | sem x' =>
    have hx : x' ≠ x := by simpa using ho
    simp [view, hl _ ho, hs x' hx]

theorem view_block_put {o o' : Obj M S} (ho : o ≠ o') :
    ({ a.block t with line := put (a.block t).line (.wait o') t } : Queues T M S).view o
      = a.view o := by
  have hb : (a.block t).view o = a.view o := view_block o
  rw [← hb]
  cases o <;> simp [view, ho]

theorem view_take_ready {o o' : Obj M S} (ho : o ≠ o') :
    (({ a with line := take a.line (.wait o') w } : Queues T M S).ready w).view o
      = a.view o := by
  rw [view_ready]
  cases o <;> simp [view, ho]

/-- An operation keeps the view of every object but its own. -/
theorem start_view {c : Call M S} {o : Obj M S} (ho : c.obj ≠ some o) :
    (Queues.start c a).state.view o = a.view o := by
  cases c with
  | schedYield =>
    show a.yield.state.view o = a.view o
    unfold yield
    split
    · simp
    · rfl
  | msleep ms =>
    show (a.msleep ms).state.view o = a.view o
    unfold msleep
    dsimp only
    split
    · simp
    · have hb : (a.block a.curr).view o = a.view o := view_block o
      rw [view_leave, view_setTask, ← hb]
      exact view_congr (by simp) rfl rfl rfl o
  | mutexLock m =>
    have hne : o ≠ .mutex m := fun he => ho (by rw [he]; rfl)
    show (a.lock m).state.view o = a.view o
    unfold lock
    -- Every branch stores to the mutex `m` or to its wait line.
    split
    · exact view_other_mutex hne (fun _ _ => rfl) (fun _ h => by simp [Stretch.state, h])
        (fun _ h => by simp [Stretch.state, h]) rfl
    · split
      · exact view_other_mutex hne (fun _ _ => rfl) (fun _ _ => rfl)
          (fun _ h => by simp [Stretch.state, h]) rfl
      · rw [view_leave, view_block_put hne]
  | mutexUnlock m =>
    have hne : o ≠ .mutex m := fun he => ho (by rw [he]; rfl)
    show (a.unlock m).state.view o = a.view o
    unfold unlock
    split
    · split
      · split
        · -- Waking the waiter changes no view of another object, then the mutex is stored.
          rename_i w ws _
          rw [view_leave, ← view_take_ready (a := a) (w := w) hne]
          refine view_other_mutex hne (fun _ _ => rfl) (fun _ h => ?_) (fun _ h => ?_) rfl
          · by_cases hw : w = idleTask <;> simp [ready, hw, h, setTask]
          · by_cases hw : w = idleTask <;> simp [ready, hw, h, setTask]
        · exact view_other_mutex hne (fun _ _ => rfl) (fun _ h => by simp [Stretch.state, h])
            (fun _ h => by simp [Stretch.state, h]) rfl
      · exact view_other_mutex hne (fun _ _ => rfl) (fun _ _ => rfl)
          (fun _ h => by simp [Stretch.state, h]) rfl
    · rfl
  | semWait x =>
    have hne : o ≠ .sem x := fun he => ho (by rw [he]; rfl)
    show (a.semWait x).state.view o = a.view o
    unfold semWait
    split
    · exact view_other_sem hne (fun _ _ => rfl) rfl rfl (fun _ h => by simp [Stretch.state, h])
    · rw [view_leave, view_block_put hne]
  | semNotify x =>
    have hne : o ≠ .sem x := fun he => ho (by rw [he]; rfl)
    show (a.semNotify x).state.view o = a.view o
    unfold semNotify
    split
    · rename_i w ws _
      rw [view_leave, view_take_ready hne]
    · exact view_other_sem hne (fun _ _ => rfl) rfl rfl (fun _ h => by simp [Stretch.state, h])
  | timer => exact view_timer o

/-- The rest of an operation keeps the view of every object. -/
theorem resume_view (k : Rest) (o : Obj M S) : (Queues.resume k a).state.view o = a.view o := by
  cases k with
  | leave => rfl
  | sleepPass => exact view_timerSleep o

end Queues

/-! ### The history of an object -/

/-- The task that the event makes wait for the object. -/
def Event.blockedOn (o : Obj M S) : Event T M S → Option T
  | .block t o' => if o' = o then some t else none
  | _ => none

/-- The task that the event takes off the wait line of the object. -/
def Event.wokenOn (o : Obj M S) : Event T M S → Option T
  | .wake t o' => if o' = o then some t else none
  | _ => none

/-- The task that the event lets pass the object at once. -/
def Event.passedOn (o : Obj M S) : Event T M S → Option T
  | .pass t o' => if o' = o then some t else none
  | _ => none

/-- The tasks that blocked on the object, in the order of their calls. -/
def blocked (o : Obj M S) (hist : List (Event T M S)) : List T :=
  hist.filterMap (Event.blockedOn o)

/-- The tasks that were taken off the wait line of the object, in this order. -/
def woken (o : Obj M S) (hist : List (Event T M S)) : List T :=
  hist.filterMap (Event.wokenOn o)

/-- The tasks that passed the object without waiting. -/
def passed (o : Obj M S) (hist : List (Event T M S)) : List T :=
  hist.filterMap (Event.passedOn o)

section Step

variable {d d' : QConfig T M S} {l : KLabel M S} {o : Obj M S} {c : Call M S}

/-- The part of a history that a partial map reads, after a stretch: the notes are added,
and the return is not read. -/
theorem filterMap_settle (f : Event T M S → Option T) (hret : ∀ t c, f (.ret t c) = none)
    (t : T) (notes : List (Event T M S)) (r : Stretch (Queues T M S) Rest) :
    (d.settle queues t c notes r).hist.filterMap f =
      d.hist.filterMap f ++ notes.filterMap f := by
  cases r with
  | returned s => simp [Suspend.Config.settle, queues, hret]
  | suspended s k => simp [Suspend.Config.settle]

/-- What an operation records: that a task passes the object of the operation, waits for it or is
taken off its wait line. -/
theorem mem_outcome {a : Queues T M S} {t : T} {e : Event T M S} (he : e ∈ a.outcome t c) :
    ∃ o u, c.obj = some o ∧ (e = .pass u o ∨ e = .block u o ∨ e = .wake u o) := by
  have hwake : ∀ o, c.obj = some o → e ∈ a.firstWaiter o →
      ∃ o u, c.obj = some o ∧ (e = .pass u o ∨ e = .block u o ∨ e = .wake u o) := by
    intro o ho hmem
    obtain ⟨w, -, rfl⟩ := List.mem_map.mp hmem
    exact ⟨o, w, ho, Or.inr (Or.inr rfl)⟩
  cases c with
  | mutexLock m =>
    rw [Queues.outcome] at he
    split at he
    · exact ⟨.mutex m, t, rfl, Or.inl (List.mem_singleton.mp he)⟩
    · split at he
      · exact absurd he List.not_mem_nil
      · exact ⟨.mutex m, t, rfl, Or.inr (Or.inl (List.mem_singleton.mp he))⟩
  | mutexUnlock m =>
    rw [Queues.outcome] at he
    split at he
    · exact hwake (.mutex m) rfl he
    · exact absurd he List.not_mem_nil
  | semWait x =>
    rw [Queues.outcome] at he
    split at he
    · exact ⟨.sem x, t, rfl, Or.inl (List.mem_singleton.mp he)⟩
    · exact ⟨.sem x, t, rfl, Or.inr (Or.inl (List.mem_singleton.mp he))⟩
  | semNotify x => exact hwake (.sem x) rfl he
  | _ => exact absurd he List.not_mem_nil

/-- An operation records nothing about an object other than its own. -/
theorem outcome_other {a : Queues T M S} (t : T) (ho : c.obj ≠ some o) :
    blocked o (a.outcome t c) = [] ∧ woken o (a.outcome t c) = [] ∧
      passed o (a.outcome t c) = [] := by
  have hother : ∀ e ∈ a.outcome t c,
      Event.blockedOn o e = none ∧ Event.wokenOn o e = none ∧ Event.passedOn o e = none := by
    intro e he
    obtain ⟨o', u, ho', hcases⟩ := mem_outcome he
    have hne : o' ≠ o := by
      rintro rfl
      exact ho ho'
    rcases hcases with rfl | rfl | rfl <;>
      simp [Event.blockedOn, Event.wokenOn, Event.passedOn, hne]
  exact ⟨List.filterMap_eq_nil_iff.mpr fun e he => (hother e he).1,
    List.filterMap_eq_nil_iff.mpr fun e he => (hother e he).2.1,
    List.filterMap_eq_nil_iff.mpr fun e he => (hother e he).2.2⟩

/-- What a step does to the wait line of an object: nothing, a task joins the end of the
line, or the first task leaves it. -/
theorem line_step (hinv : d.st.Inv) (h : step queues d l = some d') (o : Obj M S) :
    (blocked o d'.hist = blocked o d.hist ∧ woken o d'.hist = woken o d.hist ∧
      (d'.st.view o).line = (d.st.view o).line) ∨
    (∃ t, blocked o d'.hist = blocked o d.hist ++ [t] ∧ woken o d'.hist = woken o d.hist ∧
      (d'.st.view o).line = (d.st.view o).line ++ [t]) ∨
    (∃ t, blocked o d'.hist = blocked o d.hist ∧ woken o d'.hist = woken o d.hist ++ [t] ∧
      (d.st.view o).line = t :: (d'.st.view o).line) := by
  have hb : ∀ (t : T) c notes r, blocked o (d.settle queues t c notes r).hist
      = blocked o d.hist ++ blocked o notes :=
    fun t c notes r => filterMap_settle _ (fun _ _ => rfl) t notes r
  have hw : ∀ (t : T) c notes r, woken o (d.settle queues t c notes r).hist
      = woken o d.hist ++ woken o notes :=
    fun t c notes r => filterMap_settle _ (fun _ _ => rfl) t notes r
  rcases step_cases h with ⟨c, rfl, -, hmay, rfl⟩ | ⟨c, k, rfl, -, rfl⟩
  · have hcall : ∀ (t : T) (e : List (Event T M S)), blocked o (.call t c :: e) = blocked o e ∧
        woken o (.call t c :: e) = woken o e := fun _ _ => ⟨rfl, rfl⟩
    have hc : c ≠ .timer → d.st.curr ≠ idleTask := fun hne => Queues.ne_idle_of_may hmay hne
    rw [hb, hw, Suspend.Config.settle_st]
    simp only [queues, hcall]
    by_cases ho : c.obj = some o
    · -- Only an operation on the object itself moves somebody in its line.
      cases c with
      | mutexLock m =>
        obtain rfl : Obj.mutex m = o := Option.some.inj ho
        rcases Queues.lock_cases hinv (hc (by simp)) m with
          ⟨-, he, b, hr, hv⟩ | ⟨-, -, he, b, hr, hv⟩ | ⟨-, -, he, b, hr, hv⟩
        · left
          simp [he, Queues.start, hr, Stretch.state, hv, blocked, woken, Event.blockedOn,
            Event.wokenOn]
        · left
          simp [he, Queues.start, hr, Stretch.state, hv, blocked, woken]
        · right; left
          refine ⟨d.st.curr, ?_⟩
          simp [he, Queues.start, hr, Stretch.state, hv, blocked, woken, Event.blockedOn,
            Event.wokenOn]
      | mutexUnlock m =>
        obtain rfl : Obj.mutex m = o := Option.some.inj ho
        rcases Queues.unlock_cases d.st m with
          ⟨-, he, hr⟩ | ⟨-, -, he, hv⟩ | ⟨-, -, hl, he, hv⟩ | ⟨-, -, w, ws, hl, he, hv⟩
        · left
          simp [he, Queues.start, hr, Stretch.state, blocked, woken]
        · left
          simp [he, Queues.start, hv, blocked, woken]
        · left
          simp [he, Queues.start, hv, blocked, woken, hl]
        · right; right
          refine ⟨w, ?_⟩
          simp [he, Queues.start, hv, blocked, woken, Event.blockedOn, Event.wokenOn, hl]
      | semWait x =>
        obtain rfl : Obj.sem x = o := Option.some.inj ho
        rcases Queues.semWait_cases (hc (by simp)) x with ⟨-, he, hv⟩ | ⟨-, he, hv⟩
        · left
          simp [he, Queues.start, hv, blocked, woken, Event.blockedOn, Event.wokenOn]
        · right; left
          refine ⟨d.st.curr, ?_⟩
          simp [he, Queues.start, hv, blocked, woken, Event.blockedOn, Event.wokenOn]
      | semNotify x =>
        obtain rfl : Obj.sem x = o := Option.some.inj ho
        rcases Queues.semNotify_cases d.st x with ⟨hl, he, hv⟩ | ⟨w, ws, hl, he, hv⟩
        · left
          simp [he, Queues.start, hv, blocked, woken, hl]
        · right; right
          refine ⟨w, ?_⟩
          simp [he, Queues.start, hv, blocked, woken, Event.blockedOn, Event.wokenOn, hl]
      | _ => simp [Call.obj] at ho
    · left
      obtain ⟨h₁, h₂, -⟩ := outcome_other (a := d.st) d.st.curr ho
      rw [h₁, h₂, Queues.start_view ho]
      simp
  · -- The rest of a call touches no wait line and records nothing but the return.
    left
    rw [hb, hw, Suspend.Config.settle_st]
    simp only [queues, Queues.resume_view]
    simp [blocked, woken]

/-- The tasks that blocked on an object are those that were woken and then those that
wait. -/
def Ordered (o : Obj M S) (d : QConfig T M S) : Prop :=
  blocked o d.hist = woken o d.hist ++ (d.st.view o).line

theorem Ordered.step (ho : Ordered o d) (hinv : d.st.Inv) (h : step queues d l = some d') :
    Ordered o d' := by
  unfold Ordered at ho ⊢
  rcases line_step hinv h o with ⟨hb, hw, hl⟩ | ⟨t, hb, hw, hl⟩ | ⟨t, hb, hw, hl⟩
  · rw [hb, hw, hl, ho]
  · rw [hb, hw, hl, ho, List.append_assoc]
  · rw [hb, hw, ho, hl, List.append_assoc, List.singleton_append]

end Step

end StartKernel
