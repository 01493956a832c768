import StartKernel.Lib.Turns
import StartKernel.Proofs.Sleep

/-!
# `StartKernel.Proofs.Fairness`: the ready tasks take turns

Every operation moves the ready line on in the same way: tasks join at its end, and the current
task, which is the first one, may leave the front. `Turns.Rotates.once` then says that ready tasks
take turns.

* `start_moves`, `resume_moves`: what an operation does to the ready line.
* `slice_start`, `slice_afterSlice`: only a timer interrupt changes a time slice, and only the
  slice of the current task.
* `round_robin`: ready tasks take turns, and no task stays current for more ticks than its slice
  has while another one is ready.
-/

set_option autoImplicit false
set_option linter.unusedSectionVars false

namespace StartKernel

open Function (update)
open Suspend (Stretch run step step_cases Meets ConfigRel)
open Placement (take put)
open Turns (Advance Becomes)
open Trace (countSteps)

variable {T M S : Type} [DecidableEq T] [HasIdle T] [DecidableEq M] [DecidableEq S]

namespace Queues

variable {a b : Queues T M S} {t u : T}

/-! ### The ready line moves on -/

/-- The current task is the one that a dispatch chooses. -/
def Led (a : Queues T M S) : Prop := a.curr = a.next

/-- The ready line moves on, and the current task is still the one that a dispatch chooses. -/
structure Moves (a b : Queues T M S) : Prop where
  advance : Advance (a.line .ready) (b.line .ready)
  led : Led a → Led b

theorem led_dispatch : Led a.dispatch.1 := by
  show a.dispatch.1.curr = (a.dispatch.1.line .ready).head?.getD idleTask
  rw [dispatch_curr, dispatch_line]
  rfl

/-- Nothing changes for the ready line. -/
theorem Moves.same (hl : b.line = a.line) (hc : b.curr = a.curr) : Moves a b := by
  refine ⟨⟨[], Or.inl ?_⟩, fun h => ?_⟩
  · rw [hl, List.append_nil]
  · show b.curr = (b.line .ready).head?.getD idleTask
    rw [hl, hc]
    exact h

/-- An operation that ends in a dispatch. -/
theorem Moves.leave (h : Advance (a.line .ready) (b.line .ready)) : Moves a b.leave.state := by
  rw [leave_state]
  refine ⟨?_, fun _ => led_dispatch⟩
  rw [dispatch_line]
  exact h

/-- The current task leaves the front of the ready line. -/
theorem Inv.block_ready (h : Inv a) (hc : a.curr ≠ idleTask) :
    (a.block a.curr).line .ready = (a.line .ready).tail := by
  -- The line is not empty, and its first task is the current one.
  have hhead := h.curr_ready hc
  rw [block_line hc, Placement.take_self]
  cases hl : a.line .ready with
  | nil =>
    rw [hl] at hhead
    cases hhead
  | cons x xs =>
    rw [hl] at hhead
    obtain rfl : x = a.curr := Option.some.inj hhead
    rw [List.erase_cons_head, List.tail_cons]

/-- The current task leaves the ready line and stands in another line, or nowhere. -/
theorem Inv.advance_block (h : Inv a) (hc : a.curr ≠ idleTask) {p : Place M S} (hp : p ≠ .ready)
    {line : Place M S → List T} (hl : line = put (a.block a.curr).line p a.curr) :
    Advance (a.line .ready) (line .ready) := by
  refine ⟨[], Or.inr ?_⟩
  rw [hl, Placement.put_of_ne _ _ hp.symm, h.block_ready hc, List.append_nil]

/-- The current task goes to the end of the ready line. -/
theorem Inv.requeue_ready (h : Inv a) (hc : a.curr ≠ idleTask) :
    ((a.block a.curr).ready a.curr).line .ready = (a.line .ready).tail ++ [a.curr] := by
  rw [ready_line hc, Placement.put_self, h.block_ready hc]

/-- A waiter joins the ready line. -/
theorem advance_wake (o : Obj M S) (w : T) :
    Advance (a.line .ready) ((({ a with line := take a.line (.wait o) w } : Queues T M S).ready
      w).line .ready) := by
  have hline : take a.line (.wait o) w .ready = a.line .ready :=
    Placement.take_of_ne a.line w (by simp)
  by_cases hw : w = idleTask
  · -- `task_set_ready` does nothing for the idle task.
    subst hw
    rw [ready_idle]
    exact ⟨[], Or.inl (hline.trans (List.append_nil _).symm)⟩
  · refine ⟨[w], Or.inl ?_⟩
    rw [ready_line hw, Placement.put_self]
    show take a.line (.wait o) w .ready ++ [w] = _
    rw [hline]

/-- The sleepers whose time is over join the ready line. -/
theorem Steady.timerSleep_moves (h : Steady a) : Moves a a.timerSleep.state := by
  refine Moves.leave ⟨(a.line .sleep).filter a.due, Or.inl ?_⟩
  rw [sleepAll_eq h, afterSleep_ready]

/-- At the end of its slice the current task goes to the end of the ready line. -/
theorem Inv.advance_afterSlice (h : Inv a) :
    Advance (a.line .ready) (a.afterSlice.line .ready) := by
  unfold Queues.afterSlice
  split
  · by_cases hc : a.curr = idleTask
    · -- The idle task stands in no line.
      rw [hc, block_idle, ready_idle]
      exact ⟨[], Or.inl (List.append_nil _).symm⟩
    · -- The current task leaves the front and joins again at the end.
      refine ⟨[a.curr], Or.inr ?_⟩
      have hready := h.requeue_ready hc
      rw [ready_line hc, Placement.put_self, block_line hc] at hready ⊢
      exact hready
  · exact ⟨[], Or.inl (List.append_nil _).symm⟩

/-- A timer interrupt moves the ready line on. -/
theorem Inv.timer_moves (h : Inv a) : Moves a a.timer.state := by
  have hs := h.afterSlice
  have hadv := h.advance_afterSlice
  -- The sleep pass appends to the line that the slice has left.
  have hpass : ∀ b : Queues T M S, Steady b → b.line = a.afterSlice.line →
      Moves a b.timerSleep.state := by
    intro b hb hl
    have hmoves := hb.timerSleep_moves
    obtain ⟨new, hnew⟩ := hadv
    refine Moves.leave ⟨new ++ (b.line .sleep).filter b.due, ?_⟩
    rw [sleepAll_eq hb, afterSleep_ready, hl, ← List.append_assoc, ← List.append_assoc]
    exact hnew.imp (fun he => by rw [he]) fun he => by rw [he]
  unfold Queues.timer
  split
  · have hd := hs.dispatch
    have hl := dispatch_line (a := a.afterSlice)
    have hled := led_dispatch (a := a.afterSlice)
    split
    · -- The interrupt is switched out, and the sleep pass is left for later.
      rename_i b hb
      rw [hb] at hd hl hled
      refine ⟨?_, fun _ => hled⟩
      show Advance (a.line .ready) (b.line .ready)
      rw [hl]
      exact hadv
    · rename_i b hb
      rw [hb] at hd hl
      exact hpass b hd.toSteady hl
  · exact hpass _ hs rfl

theorem Inv.ipc_moves {b : Queues T M S} {o : Obj M S} (h : Inv a) (hc : a.curr ≠ idleTask)
    (hs : IpcStep a o b) : Moves a b := by
  cases hs with
  | count => exact Moves.same rfl rfl
  | wait => exact Moves.leave (h.advance_block hc (p := .wait o) (by simp) rfl)
  | wake hw => exact Moves.leave (advance_wake o _)

/-- Every operation moves the ready line on, up to its next switch. -/
theorem Inv.start_moves (h : Inv a) {c : Call M S} (hmay : queues.may c a = true) :
    Moves a (Queues.start c a).state := by
  have hc : c ≠ .timer → a.curr ≠ idleTask := fun hne => Queues.ne_idle_of_may hmay hne
  cases c with
  | schedYield =>
    show Moves a a.yield.state
    unfold Queues.yield
    split
    · refine Moves.leave ⟨[a.curr], Or.inr ?_⟩
      rw [h.requeue_ready (hc (by simp))]
    · exact Moves.same rfl rfl
  | msleep ms =>
    show Moves a (a.msleep ms).state
    have hblock : Advance (a.line .ready) ((a.block a.curr).line .ready) :=
      ⟨[], Or.inr (by rw [h.block_ready (hc (by simp)), List.append_nil])⟩
    unfold Queues.msleep
    dsimp only
    split
    · exact Moves.leave hblock
    · refine Moves.leave (h.advance_block (hc (by simp)) (p := .sleep) (by simp) ?_)
      rw [setTask_line, block_curr]
  | mutexLock m => exact h.ipc_moves (hc (by simp)) (a.lock_step m)
  | mutexUnlock m => exact h.ipc_moves (hc (by simp)) (a.unlock_step m)
  | semWait x => exact h.ipc_moves (hc (by simp)) (a.semWait_step x)
  | semNotify x => exact h.ipc_moves (hc (by simp)) (a.semNotify_step x)
  | timer => exact h.timer_moves

/-- The rest of a switched-out operation moves the ready line on. -/
theorem Inv.resume_moves (h : Inv a) (k : Rest) : Moves a (Queues.resume k a).state := by
  cases k with
  | leave => exact Moves.same rfl rfl
  | sleepPass => exact h.toSteady.timerSleep_moves

/-! ### The time slices -/

/-- What is left of the slice of a task, and its length. -/
def slice (a : Queues T M S) (t : T) : Int × Int := ((a.task t).sliceTicks, (a.task t).timeTicks)

theorem slice_setTask {v : TaskT} (hv : (v.sliceTicks, v.timeTicks) = a.slice t) :
    (a.setTask t v).slice = a.slice := by
  funext u
  unfold slice
  by_cases hu : u = t
  · subst hu
    rw [setTask_task, Function.update_self]
    exact hv
  · rw [setTask_task, Function.update_of_ne hu]

@[simp] theorem slice_ready : (a.ready t).slice = a.slice := by
  unfold ready
  split
  · exact slice_setTask rfl
  · rfl

@[simp] theorem slice_block : (a.block t).slice = a.slice := by
  unfold slice
  rw [block_task]

@[simp] theorem slice_dispatch : a.dispatch.1.slice = a.slice := by
  unfold dispatch
  split
  · exact slice_setTask rfl
  · rfl

@[simp] theorem slice_leave : a.leave.state.slice = a.slice := by
  rw [leave_state, slice_dispatch]

theorem slice_sleepStep : (a.sleepStep t).slice = a.slice := by
  have hset : (a.setTask t { a.task t with
      sleepTicks := toInt ((a.task t).sleepTicks - 1) }).slice = a.slice := slice_setTask rfl
  unfold sleepStep
  dsimp only
  split
  · rw [slice_ready]
    exact hset
  · exact hset

theorem slice_foldl_sleepStep (ts : List T) :
    ∀ a : Queues T M S, (ts.foldl sleepStep a).slice = a.slice := by
  induction ts with
  | nil => exact fun _ => rfl
  | cons t ts ih =>
    intro a
    rw [List.foldl_cons, ih, slice_sleepStep]

@[simp] theorem slice_timerSleep : a.timerSleep.state.slice = a.slice := by
  unfold timerSleep sleepAll
  rw [slice_leave, slice_foldl_sleepStep]

theorem IpcStep.slice {b : Queues T M S} {o : Obj M S} (hs : IpcStep a o b) :
    b.slice = a.slice := by
  cases hs with
  | count => rfl
  | wait =>
    rw [slice_leave]
    exact slice_block
  | @wake w _ _ =>
    rw [slice_leave]
    exact slice_ready (a := { a with line := take a.line (.wait o) w })

/-- No operation of a task changes a slice. -/
theorem slice_start {c : Call M S} (hc : c ≠ .timer) : (start c a).state.slice = a.slice := by
  cases c with
  | schedYield =>
    show a.yield.state.slice = a.slice
    unfold yield
    split
    · rw [slice_leave, slice_ready, slice_block]
    · rfl
  | msleep ms =>
    show (a.msleep ms).state.slice = a.slice
    unfold msleep
    dsimp only
    split
    · rw [slice_leave, slice_block]
    · rw [slice_leave, slice_setTask]
      · exact slice_block
      · rfl
  | mutexLock m => exact (a.lock_step m).slice
  | mutexUnlock m => exact (a.unlock_step m).slice
  | semWait x => exact (a.semWait_step x).slice
  | semNotify x => exact (a.semNotify_step x).slice
  | timer => exact absurd rfl hc

theorem slice_resume (k : Rest) : (resume k a).state.slice = a.slice := by
  cases k with
  | leave => rfl
  | sleepPass => exact slice_timerSleep

/-- The slice after a timer interrupt is the one that its first half leaves. -/
theorem slice_timer : a.timer.state.slice = a.afterSlice.slice := by
  have hd := slice_dispatch (a := a.afterSlice)
  unfold timer
  split
  · split
    · rename_i b hb
      rw [hb] at hd
      exact hd
    · rename_i b hb
      rw [hb] at hd
      rw [slice_timerSleep, hd]
  · exact slice_timerSleep

end Queues

/-- A slice that is between 1 and its length, in the range of `int`. -/
structure SliceOk (v : TaskT) : Prop where
  pos : 1 ≤ v.sliceTicks
  le : v.sliceTicks ≤ v.timeTicks
  fits : v.timeTicks < 2 ^ 31

namespace Queues

variable {a : Queues T M S} {t u : T}

theorem sliceOk_congr {b : Queues T M S} (h : b.slice = a.slice) :
    SliceOk (b.task t) ↔ SliceOk (a.task t) := by
  obtain ⟨h₁, h₂⟩ := Prod.mk.inj (congrFun h t)
  constructor
  · rintro ⟨hpos, hle, hfits⟩
    exact ⟨h₁ ▸ hpos, h₁ ▸ h₂ ▸ hle, h₂ ▸ hfits⟩
  · rintro ⟨hpos, hle, hfits⟩
    exact ⟨h₁.symm ▸ hpos, h₁.symm ▸ h₂.symm ▸ hle, h₂.symm ▸ hfits⟩

/-- The tick count of a slice that has ticks left. -/
theorem slice_tick {v : TaskT} (h : SliceOk v) : toInt (v.sliceTicks - 1) = v.sliceTicks - 1 := by
  have hpos := h.pos
  have hle := h.le
  have hfits := h.fits
  exact toInt_of_fits (by omega) (by omega)

/-- The slices after a timer interrupt. The current task loses a tick, or it gets a new slice after
the last one. -/
theorem slice_afterSlice (h : SliceOk (a.task a.curr)) :
    a.afterSlice.slice = update a.slice a.curr
      (if (a.task a.curr).sliceTicks = 1 then (a.task a.curr).timeTicks
        else (a.task a.curr).sliceTicks - 1, (a.task a.curr).timeTicks) := by
  have htick := slice_tick h
  have hset : ∀ v : TaskT, (a.setTask a.curr v).slice
      = update a.slice a.curr (v.sliceTicks, v.timeTicks) := by
    intro v
    funext u
    unfold slice
    by_cases hu : u = a.curr
    · subst hu
      rw [setTask_task, Function.update_self, Function.update_self]
    · rw [setTask_task, Function.update_of_ne hu, Function.update_of_ne hu]
  unfold afterSlice sliceOver
  rw [htick]
  by_cases hone : (a.task a.curr).sliceTicks = 1
  · have hover : ((a.task a.curr).sliceTicks - 1 == 0) = true := by
      rw [beq_iff_eq]
      omega
    rw [if_pos hover, slice_ready, slice_block, hset, if_pos hone]
  · have hover : ¬ ((a.task a.curr).sliceTicks - 1 == 0) = true := by
      rw [beq_iff_eq]
      omega
    rw [if_neg hover, hset, if_neg hone]

/-- A timer interrupt keeps every slice between 1 and its length. -/
theorem SliceOk.timer (h : ∀ t, SliceOk (a.task t)) (t : T) : SliceOk (a.timer.state.task t) := by
  have hcurr := h a.curr
  have hslice : a.timer.state.slice t = _ :=
    (congrFun (slice_timer.trans (slice_afterSlice hcurr)) t)
  by_cases ht : t = a.curr
  · -- The current task has one tick less, or a new slice after the last tick.
    subst ht
    rw [Function.update_self] at hslice
    obtain ⟨h₁, h₂⟩ := Prod.mk.inj hslice
    have hpos := hcurr.pos
    have hle := hcurr.le
    have hfits := hcurr.fits
    refine ⟨?_, ?_, ?_⟩
    · rw [h₁]
      split <;> omega
    · rw [h₁, h₂]
      split <;> omega
    · rw [h₂]
      exact hfits
  · rw [Function.update_of_ne ht] at hslice
    obtain ⟨h₁, h₂⟩ := Prod.mk.inj hslice
    exact ⟨h₁ ▸ (h t).pos, h₁ ▸ h₂ ▸ (h t).le, h₂ ▸ (h t).fits⟩

/-- Slices stay between 1 and their length. -/
theorem SliceOk.step {d d' : QConfig T M S} {l : KLabel M S} (h : ∀ t, SliceOk (d.st.task t))
    (hstep : step queues d l = some d') (t : T) : SliceOk (d'.st.task t) := by
  rcases step_cases hstep with ⟨c, rfl, -, -, rfl⟩ | ⟨c, k, rfl, -, rfl⟩
  · rw [Suspend.Config.settle_st]
    by_cases hc : c = .timer
    · subst hc
      exact SliceOk.timer h t
    · exact (sliceOk_congr (slice_start hc)).mpr (h t)
  · rw [Suspend.Config.settle_st]
    exact (sliceOk_congr (slice_resume k)).mpr (h t)

/-- At the end of a slice another ready task is next. -/
theorem Inv.next_ne (h : Inv a) (hover : a.sliceOver = true) (hu : u ≠ a.curr)
    (hmem : u ∈ a.line .ready) : a.afterSlice.next ≠ a.curr := by
  unfold Queues.afterSlice
  rw [if_pos hover]
  by_cases hc : a.curr = idleTask
  · -- The idle task is in no line.
    rw [hc, block_idle, ready_idle]
    unfold next
    rw [setTask_line]
    cases hl : a.line .ready with
    | nil =>
      rw [hl] at hmem
      cases hmem
    | cons x xs => exact h.ne_idle (p := .ready) (by rw [hl]; exact List.mem_cons_self)
  · -- The current task is behind the others.
    have hm := h.curr_mem hc
    have hlen : 1 < (a.line .ready).length := by
      by_contra hle
      obtain ⟨x, hx⟩ : ∃ x, a.line .ready = [x] :=
        List.length_eq_one_iff.mp (by have := List.length_pos_of_mem hm; omega)
      rw [hx, List.mem_singleton] at hm hmem
      exact hu (hmem.trans hm.symm)
    refine h.next_ne_of_move hc (p := .ready) ?_ fun _ => hlen
    rw [ready_line hc, block_line hc, setTask_line]

/-- A task that stays current over a timer interrupt, while another one is ready, has ticks of its
slice left, and it loses one of them. -/
theorem Inv.timer_stays (h : Inv a) (hs : SliceOk (a.task a.curr)) (hu : u ≠ a.curr)
    (hmem : u ∈ a.line .ready) (hstays : a.timer.state.curr = a.curr) :
    (a.timer.state.task a.curr).sliceTicks = (a.task a.curr).sliceTicks - 1 := by
  have hslice := congrFun (slice_timer.trans (slice_afterSlice hs)) a.curr
  rw [Function.update_self] at hslice
  -- With one tick left the slice would end here, and the other task would be dispatched.
  refine (Prod.mk.inj hslice).1.trans (if_neg fun hone => ?_)
  have hover : a.sliceOver = true := by
    unfold sliceOver
    rw [slice_tick hs, hone]
    rfl
  have hnext := h.next_ne hover hu hmem
  rw [timer_state_of_switch hover (by rwa [afterSlice_curr]), dispatch_curr] at hstays
  exact hnext hstays

/-! ### Runs of the lines -/

/-- One step of the lines moves the ready line on. -/
theorem moves_step {d d' : QConfig T M S} {l : KLabel M S} (hinv : d.st.Inv)
    (hstep : step queues d l = some d') : Moves d.st d'.st := by
  rcases step_cases hstep with ⟨c, rfl, -, hmay, rfl⟩ | ⟨c, k, rfl, -, rfl⟩
  · rw [Suspend.Config.settle_st]
    exact hinv.start_moves hmay
  · rw [Suspend.Config.settle_st]
    exact hinv.resume_moves k

/-- The ready tasks take turns. -/
theorem rotates : Turns.Rotates (step (queues : Suspend.System (Queues T M S) T (Call M S) Rest
      (Event T M S))) (fun _ l => SleepFits l) (fun d => d.st.Inv ∧ Led d.st)
    (fun d => d.st.line .ready) (fun d => d.st.curr) where
  keeps _ _ _ hd hfit hstep := ⟨inv_step hd.1 hfit hstep, (moves_step hd.1 hstep).led hd.2⟩
  advance _ _ _ hd _ hstep := (moves_step hd.1 hstep).advance
  nodup _ hd := hd.1.placed.nodup .ready
  front d x hd hx := by
    have hled : d.st.curr = (d.st.line .ready).head?.getD idleTask := hd.2
    have hne := hd.1.ne_idle hx
    rw [hled]
    cases hl : d.st.line .ready with
    | nil =>
      rw [hl] at hx
      cases hx
    | cons y ys => exact (Option.some.injEq y x).symm.to_iff

/-- The task is current in front of the step, and another task is ready. -/
def Holds (t : T) (d : QConfig T M S) : Prop := d.st.curr = t ∧ ∃ u ≠ t, u ∈ d.st.line .ready

/-- A task that is current in front of every step of a run, while another task is ready, gets no
more ticks than its slice has. The induction is on the run: every tick but the last one leaves the
task current with one tick less. -/
theorem timers_le (ls : List (KLabel M S)) :
    ∀ (d d' : QConfig T M S) (t : T), d.st.Inv → (∀ t, SliceOk (d.st.task t)) →
      (∀ l ∈ ls, SleepFits l) → Meets queues (fun d _ => Holds t d) d ls →
      run queues d ls = some d' → (timers ls : Int) ≤ (d.st.task t).sliceTicks := by
  induction ls with
  | nil =>
    intro d d' t _ hslice _ _ _
    have hpos := (hslice t).pos
    show ((0 : Nat) : Int) ≤ _
    omega
  | cons l ls ih =>
    intro d d' t hinv hslice hfit hmeets hrun
    obtain ⟨d₁, hstep, hrest⟩ := Option.bind_eq_some_iff.mp hrun
    obtain ⟨⟨hcurr, u, hu, hmem⟩, hmeets'⟩ := hmeets
    replace hmeets' := hmeets' d₁ hstep
    have hle := ih d₁ d' t (inv_step hinv (hfit l (by simp)) hstep) (SliceOk.step hslice hstep)
      (fun l' hl' => hfit l' (by simp [hl'])) hmeets' hrest
    have hpos := (hslice t).pos
    by_cases hl : l = .start .timer
    · subst hl
      have hcount : timers (.start .timer :: ls) = timers ls + 1 := by simp [timers]
      rw [hcount]
      cases ls with
      | nil =>
        -- The last tick may switch, and one tick is left in every slice.
        show ((0 + 1 : Nat) : Int) ≤ _
        omega
      | cons l' ls =>
        -- The task is current in front of the next step too.
        have hcurr' := hmeets'.1.1
        rcases step_cases hstep with ⟨c, hc, -, -, rfl⟩ | ⟨c, k, hc, -⟩
        · obtain rfl : .timer = c := by simpa using hc
          rw [Suspend.Config.settle_st] at hcurr' hle
          subst hcurr
          have htick : (d.st.timer.state.task d.st.curr).sliceTicks = _ :=
            hinv.timer_stays (hslice _) hu hmem hcurr'
          have hle' : ((timers (l' :: ls) : Nat) : Int)
              ≤ (d.st.timer.state.task d.st.curr).sliceTicks := hle
          omega
        · cases hc
    · -- Nothing but a timer interrupt changes a slice.
      have hcount : timers (l :: ls) = timers ls := by
        unfold timers
        rw [List.count_cons_of_ne hl]
      rw [hcount]
      have hsame : (d₁.st.task t).sliceTicks = (d.st.task t).sliceTicks := by
        rcases step_cases hstep with ⟨c, rfl, -, -, rfl⟩ | ⟨c, k, rfl, -, rfl⟩
        · rw [Suspend.Config.settle_st]
          exact (Prod.mk.inj (congrFun (slice_start fun he => hl (by rw [he])) t)).1
        · rw [Suspend.Config.settle_st]
          exact (Prod.mk.inj (congrFun (slice_resume k) t)).1
      rw [← hsame]
      exact hle

end Queues

/-! ### Runs of the kernel -/

variable {c c₁ c₂ c₃ : KConfig T M S} {l l' : KLabel M S} {ls : List (KLabel M S)} {x y : T}

/-- The task becomes `curr_task` with this step. -/
abbrev BecomesCurr (x : T) : KConfig T M S → KConfig T M S → Prop := Becomes (·.st.currTask) x

/-- Two successive moments at which `y` becomes `curr_task`, in the step from `c` to `c₁` and in
the step from `c₂` to `c₃`. Between them `x` and `y` stay in the ready list. -/
structure Round (x y : T) (c : KConfig T M S) (l : KLabel M S) (c₁ : KConfig T M S)
    (ls : List (KLabel M S)) (c₂ : KConfig T M S) (l' : KLabel M S) (c₃ : KConfig T M S) :
    Prop where
  first : step kernel c l = some c₁
  becomes : BecomesCurr y c c₁
  middle : run kernel c₁ ls = some c₂
  last : step kernel c₂ l' = some c₃
  again : BecomesCurr y c₂ c₃
  successive : countSteps (step kernel) (BecomesCurr y) c₁ ls = 0
  stay : Meets kernel (fun c _ => c.st.InList .ready x ∧ c.st.InList .ready y) c₁ (ls ++ [l'])
  stayLast : c₃.st.InList .ready x ∧ c₃.st.InList .ready y

/-- The task is `curr_task` in front of the step, and another task is in the ready list. -/
def HoldsCpu (t : T) (c : KConfig T M S) (_ : KLabel M S) : Prop :=
  c.st.currTask = t ∧ ∃ u ≠ t, c.st.InList .ready u

/-- In a round of `y`, every other task that stays ready becomes current exactly once. -/
theorem Round.once (h : Round x y c l c₁ ls c₂ l' c₃) (hinv : SchedInv c.st) (hl : SleepFits l)
    (hls : ∀ l ∈ ls, SleepFits l) (hl' : SleepFits l') (hne : x ≠ y) :
    countSteps (step kernel) (BecomesCurr x) c₁ ls = 1 := by
  have hfit : ∀ k ∈ ls ++ [l'], SleepFits k := by
    intro k hk
    rcases List.mem_append.mp hk with hk | hk
    · exact hls k hk
    · exact (List.mem_singleton.mp hk) ▸ hl'
  -- The matching run of the lines.
  obtain ⟨a, ha⟩ := schedInv_iff.mp hinv
  have hc : ConfigRel Matches c { st := a, pend := c.pend, hist := c.hist } := ⟨ha, rfl, rfl⟩
  obtain ⟨d₁, -, hrel₁⟩ := kernel_simulates.step hc hl h.first
  obtain ⟨d₂, hrun₂, hrel₂⟩ := kernel_simulates.run hls hrel₁ h.middle
  obtain ⟨d₃, hstep₃, hrel₃⟩ := kernel_simulates.step hrel₂ hl' h.last
  have hcurr : ∀ (z : T) (c c' : KConfig T M S) (d d' : QConfig T M S), ConfigRel Matches c d →
      ConfigRel Matches c' d' → (BecomesCurr z c c' ↔ Becomes (·.st.curr) z d d') := by
    intro z c c' d d' hcd hcd'
    show c.st.currTask ≠ z ∧ c'.st.currTask = z ↔ d.st.curr ≠ z ∧ d'.st.curr = z
    rw [hcd.st.1.curr, hcd'.st.1.curr]
  have hwhole : run kernel c₁ (ls ++ [l']) = some c₃ := Trace.run_snoc h.middle h.last
  have hstay : Meets queues (fun d _ => x ∈ d.st.line .ready ∧ y ∈ d.st.line .ready) d₁
      (ls ++ [l']) :=
    kernel_simulates.meets (fun _ _ _ hcd hm => ⟨hcd.st.1.inList_iff.mp hm.1,
      hcd.st.1.inList_iff.mp hm.2⟩) hfit hrel₁ hwhole h.stay
  have hend := h.stayLast
  rw [hrel₃.st.1.inList_iff, hrel₃.st.1.inList_iff] at hend
  -- The round starts with a dispatch, so the current task is the first ready one.
  have hfirst : d₁.st.curr = y := hrel₁.st.1.curr.symm.trans h.becomes.2
  have hy : y ∈ d₁.st.line .ready := by
    cases ls with
    | nil => exact hstay.1.2
    | cons k ks => exact hstay.1.2
  have hled : Queues.Led d₁.st := by
    have hhead := hrel₁.st.2.curr_ready (hfirst ▸ hrel₁.st.2.ne_idle hy)
    show d₁.st.curr = (d₁.st.line .ready).head?.getD idleTask
    rw [hhead]
    rfl
  rw [kernel_simulates.countSteps (hcurr x) hls hrel₁ h.middle]
  have hno := h.successive
  rw [kernel_simulates.countSteps (hcurr y) hls hrel₁ h.middle] at hno
  exact Queues.rotates.once hne ⟨hrel₁.st.2, hled⟩ (Trace.meets_of_forall hfit) hfirst hrun₂
    hstep₃ ((hcurr y _ _ _ _ hrel₂ hrel₃).mp h.again) hno hstay hend.1 hend.2

/-- Every run keeps the time slices between 1 and their length. -/
theorem sliceOk_run (hinv : SchedInv c.st) (hslice : ∀ t, SliceOk (c.st.task t))
    (hfit : ∀ l ∈ ls, SleepFits l) (hrun : run kernel c ls = some c₁) (t : T) :
    SliceOk (c₁.st.task t) := by
  obtain ⟨a, ha⟩ := schedInv_iff.mp hinv
  obtain ⟨d, hd, hrel⟩ := run_matches ha hfit hrun
  rw [ha.1.task] at hslice
  rw [hrel.st.1.task]
  exact Trace.run_invariant (I := fun d => ∀ t, SliceOk (d.st.task t))
    (fun _ _ _ h _ hs => Queues.SliceOk.step h hs) hslice
    (Trace.meets_of_forall (Q := fun _ => True) fun _ _ => trivial) hd t

/-- A task that stays current while another one is ready gets no more ticks than its slice has. -/
theorem timers_le_timeTicks {t : T} (hinv : SchedInv c.st) (hslice : ∀ t, SliceOk (c.st.task t))
    (hfit : ∀ l ∈ ls, SleepFits l) (hholds : Meets kernel (HoldsCpu t) c ls)
    (hrun : run kernel c ls = some c₁) : (timers ls : Int) ≤ (c.st.task t).timeTicks := by
  obtain ⟨a, ha⟩ := schedInv_iff.mp hinv
  have hc : ConfigRel Matches c { st := a, pend := c.pend, hist := c.hist } := ⟨ha, rfl, rfl⟩
  obtain ⟨d, hd, -⟩ := run_matches ha hfit hrun
  have hmeets : Meets queues (fun d _ => Queues.Holds t d) _ ls :=
    kernel_simulates.meets (fun _ _ _ hcd hm => ⟨hcd.st.1.curr.symm.trans hm.1,
      hm.2.imp fun u hu => ⟨hu.1, hcd.st.1.inList_iff.mp hu.2⟩⟩) hfit hc hrun hholds
  have hle := (hslice t).le
  rw [ha.1.task] at hslice hle ⊢
  exact (Queues.timers_le ls _ d t ha.2 hslice hfit hmeets hd).trans hle

/-- Round-robin. A run from a state with well-formed lists and slices keeps the slices between 1
and their length. From the state `c₁` that it reaches, every other task that stays ready becomes
current exactly once in a round of a ready task, and no task stays current for more ticks than its
slice has while another one is ready. -/
theorem round_robin (hinv : SchedInv c.st) (hslice : ∀ t, SliceOk (c.st.task t))
    (hfit : ∀ l ∈ ls, SleepFits l) (hrun : run kernel c ls = some c₁) :
    (∀ t, SliceOk (c₁.st.task t)) ∧
    (∀ x y l c₂ mid c₃ l' c₄, x ≠ y → SleepFits l → (∀ k ∈ mid, SleepFits k) → SleepFits l' →
      Round x y c₁ l c₂ mid c₃ l' c₄ →
      countSteps (step kernel) (BecomesCurr x) c₂ mid = 1) ∧
    (∀ t mid c₂, (∀ k ∈ mid, SleepFits k) → run kernel c₁ mid = some c₂ →
      Meets kernel (HoldsCpu t) c₁ mid → (timers mid : Int) ≤ (c₁.st.task t).timeTicks) := by
  have hinv₁ := run_schedInv hinv hfit hrun
  have hslice₁ := sliceOk_run hinv hslice hfit hrun
  refine ⟨hslice₁, ?_, ?_⟩
  · intro x y l c₂ mid c₃ l' c₄ hne hl hmid hl' hround
    exact hround.once hinv₁ hl hmid hl' hne
  · intro t mid c₂ hmid hrun₂ hholds
    exact timers_le_timeTicks hinv₁ hslice₁ hmid hholds hrun₂

/-- The task is at one of the ends of the ready list. -/
def AtEnd (s : Sched T M S) (x : T) : Prop :=
  s.readyList.first = some x ∨ s.readyList.last = some x

instance (s : Sched T M S) : DecidablePred (AtEnd s) := fun x =>
  inferInstanceAs (Decidable (s.readyList.first = some x ∨ s.readyList.last = some x))

theorem SchedInv.inList_atEnd {s : Sched T M S} (hinv : SchedInv s) (h : AtEnd s x) :
    s.InList .ready x := by
  obtain ⟨xs, hxs⟩ := hinv.lists .ready
  have hlist : IsList s.runNode s.readyList xs := hxs
  unfold AtEnd at h
  rw [hlist.first, hlist.last] at h
  exact ⟨xs, hxs, h.elim List.mem_of_mem_head? List.mem_of_mem_getLast?⟩

/-- A condition that follows from the ends of the ready list in each state of a run. -/
theorem meets_of_ends {P Q : KConfig T M S → Prop} (hinv : SchedInv c.st)
    (hfit : ∀ l ∈ ls, SleepFits l) (himp : ∀ c, SchedInv c.st → P c → Q c)
    (hP : Meets kernel (fun c _ => P c) c ls) : Meets kernel (fun c _ => Q c) c ls :=
  Trace.Meets.imp (I := fun c => SchedInv c.st) hP (Trace.meets_of_forall hfit) hinv
    (fun c _ => himp c) fun _ _ _ hc hl hs => step_schedInv hc hl hs

/-- Two tasks that take turns: the second one becomes current, yields to the first one, and
becomes current again. Before that, the first one gets three ticks. -/
theorem round_robin_two_tasks :
    ∃ c₁ c₂ c₃ c₄ c₅ : KConfig (Fin 3) Unit Unit,
      Round 1 2 c₁ (.start .schedYield) c₂ [.start .schedYield, .resume] c₃ (.start .schedYield)
        c₄ ∧
      countSteps (step kernel) (BecomesCurr 1) c₂ [.start .schedYield, .resume] = 1 ∧
      run kernel c₁ (List.replicate 3 (.start .timer)) = some c₅ ∧
      Meets kernel (HoldsCpu 1) c₁ (List.replicate 3 (.start .timer)) ∧
      ((timers (List.replicate 3 (.start .timer) : List (KLabel Unit Unit)) : Nat) : Int)
        ≤ (c₁.st.task 1).timeTicks := by
  have hinv := readySched_inv (M := Unit) (S := Unit) (show [(1 : Fin 3), 2].Nodup by decide)
    (by decide) 0
  have hslice : ∀ t, SliceOk ((readySched [1, 2] 0 : Sched (Fin 3) Unit Unit).task t) :=
    fun t => ⟨by revert t; decide +kernel, by revert t; decide +kernel,
      by revert t; decide +kernel⟩
  -- The run of the example, and what is read off its states.
  have h₁ : (run kernel (startConfig (readySched [1, 2] 0 : Sched (Fin 3) Unit Unit))
      [.start .timer]).map (fun c => decide (c.st.currTask = 1 ∧
        (run kernel c (List.replicate 3 (.start .timer))).isSome ∧
        Meets kernel (fun c _ => c.st.currTask = 1 ∧ AtEnd c.st 2) c
          (List.replicate 3 (.start .timer)))) = some true := by
    decide +kernel
  have h₂ : (run kernel (startConfig (readySched [1, 2] 0 : Sched (Fin 3) Unit Unit))
      [.start .timer, .start .schedYield]).map (fun c => decide (c.st.currTask = 2 ∧
        countSteps (step kernel) (BecomesCurr 2) c [.start .schedYield, .resume] = 0 ∧
        Meets kernel (fun c _ => AtEnd c.st 1 ∧ AtEnd c.st 2) c
          [.start .schedYield, .resume, .start .schedYield])) = some true := by
    decide +kernel
  have h₃ : (run kernel (startConfig (readySched [1, 2] 0 : Sched (Fin 3) Unit Unit))
      [.start .timer, .start .schedYield, .start .schedYield, .resume]).map
        (fun c => c.st.currTask) = some 1 := by
    decide +kernel
  have h₄ : (run kernel (startConfig (readySched [1, 2] 0 : Sched (Fin 3) Unit Unit))
      [.start .timer, .start .schedYield, .start .schedYield, .resume, .start .schedYield]).map
        (fun c => decide (c.st.currTask = 2 ∧ AtEnd c.st 1 ∧ AtEnd c.st 2)) = some true := by
    decide +kernel
  obtain ⟨c₁, hrun₁, hc₁⟩ := Option.map_eq_some_iff.mp h₁
  obtain ⟨c₂, hrun₂, hc₂⟩ := Option.map_eq_some_iff.mp h₂
  obtain ⟨c₃, hrun₃, hc₃⟩ := Option.map_eq_some_iff.mp h₃
  obtain ⟨c₄, hrun₄, hc₄⟩ := Option.map_eq_some_iff.mp h₄
  obtain ⟨hcurr₁, hsome, hholds⟩ := of_decide_eq_true hc₁
  obtain ⟨hcurr₂, hno, hends⟩ := of_decide_eq_true hc₂
  obtain ⟨hcurr₄, hx₄, hy₄⟩ := of_decide_eq_true hc₄
  obtain ⟨c₅, hrun₅⟩ := Option.isSome_iff_exists.mp hsome
  -- Each state comes from the one in front of it.
  obtain ⟨d, hd, hfirst⟩ : ∃ d, run kernel _ [.start .timer] = some d ∧
      step kernel d (.start .schedYield) = some c₂ := Trace.run_concat hrun₂
  obtain rfl : c₁ = d := Option.some.inj (hrun₁.symm.trans hd)
  obtain ⟨d, hd, hmid⟩ : ∃ d, run kernel _ [.start .timer, .start .schedYield] = some d ∧
      run kernel d [.start .schedYield, .resume] = some c₃ := Trace.run_prefix hrun₃
  obtain rfl : c₂ = d := Option.some.inj (hrun₂.symm.trans hd)
  obtain ⟨d, hd, hlast⟩ : ∃ d, run kernel _ [.start .timer, .start .schedYield,
      .start .schedYield, .resume] = some d ∧ step kernel d (.start .schedYield) = some c₄ :=
    Trace.run_concat hrun₄
  obtain rfl : c₃ = d := Option.some.inj (hrun₃.symm.trans hd)
  have hinv₁ := run_schedInv hinv (by decide) hrun₁
  have hinv₂ := run_schedInv hinv (by decide) hrun₂
  have hinv₄ := run_schedInv hinv (by decide) hrun₄
  have hround : Round 1 2 c₁ (.start .schedYield) c₂ [.start .schedYield, .resume] c₃
      (.start .schedYield) c₄ :=
    ⟨hfirst, ⟨fun he => absurd (hcurr₁.symm.trans he) (by decide), hcurr₂⟩, hmid, hlast,
      ⟨fun he => absurd (hc₃.symm.trans he) (by decide), hcurr₄⟩, hno,
      meets_of_ends hinv₂ (by decide)
        (fun c hc h => ⟨hc.inList_atEnd h.1, hc.inList_atEnd h.2⟩) hends,
      hinv₄.inList_atEnd hx₄, hinv₄.inList_atEnd hy₄⟩
  have hcpu : Meets kernel (HoldsCpu 1) c₁ (List.replicate 3 (.start .timer)) :=
    meets_of_ends hinv₁ (by decide)
      (fun c hc h => ⟨h.1, 2, by decide, hc.inList_atEnd h.2⟩) hholds
  obtain ⟨-, hturns, hticks⟩ := round_robin hinv hslice (by decide) hrun₁
  exact ⟨c₁, c₂, c₃, c₄, c₅, hround,
    hturns 1 2 _ _ _ _ _ _ (by decide) (by decide) (by decide) (by decide) hround, hrun₅, hcpu,
    hticks 1 _ _ (by decide) hrun₅ hcpu⟩

end StartKernel
