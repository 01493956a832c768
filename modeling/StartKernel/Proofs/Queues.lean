import StartKernel.Abs.Queues
import Mathlib.Data.List.Nodup

/-!
# `StartKernel.Proofs.Queues`: the invariant of the lines

`Queues.Inv` says that every task other than the idle one stands in exactly one line, exactly
once, that the current task is the idle task or the first ready task, and that every
sleeper has a tick left to sleep.

* `sleepAll_eq`: what the sleep pass does to all sleepers at once. The tasks in their last
  tick join the ready line in their order, the others stay, and every sleeper loses a tick.
* `Inv.start` / `Inv.resume`: every operation, up to its next switch, keeps the invariant.
  The operation moves tasks between lines (`Placed.move`) and ends in a dispatch, which
  makes the first ready task current (`Steady.leave`).
-/

set_option autoImplicit false
set_option linter.unusedSectionVars false

namespace StartKernel.Queues

open Function (update)
open Suspend (Stretch)
open Placement (Apart Placed take put mem_take mem_put)

variable {T M S : Type} [DecidableEq T] [HasIdle T] [DecidableEq M] [DecidableEq S]
  {a : Queues T M S} {t u : T}

/-- Every task but the idle one is placed once, and the sleepers have ticks left. The upper
bound is the range of the C `int`. -/
structure Steady (a : Queues T M S) : Prop where
  placed : Placed (· ≠ (idleTask : T)) a.line
  asleep : ∀ t ∈ a.line .sleep, 1 ≤ (a.task t).sleepTicks ∧ (a.task t).sleepTicks < 2 ^ 31

/-- The invariant of the lines between two stretches. -/
structure Inv (a : Queues T M S) : Prop extends Steady a where
  curr : a.curr = idleTask ∨ (a.line .ready).head? = some a.curr

/-! ### The small steps -/

@[simp] theorem setTask_line (a : Queues T M S) (t : T) (v : TaskT) :
    (a.setTask t v).line = a.line := rfl

@[simp] theorem setTask_curr (a : Queues T M S) (t : T) (v : TaskT) :
    (a.setTask t v).curr = a.curr := rfl

@[simp] theorem setTask_task (a : Queues T M S) (t : T) (v : TaskT) :
    (a.setTask t v).task = update a.task t v := rfl

@[simp] theorem ready_line (ht : t ≠ idleTask) :
    (a.ready t).line = put a.line .ready t := by
  simp [ready, ht]

@[simp] theorem ready_curr : (a.ready t).curr = a.curr := by
  unfold ready
  split <;> rfl

@[simp] theorem ready_sleepTicks :
    ((a.ready t).task u).sleepTicks = (a.task u).sleepTicks := by
  unfold ready
  split
  · by_cases hu : u = t
    · subst hu
      simp [setTask]
    · simp [setTask, hu]
  · rfl

theorem ready_task_of_ne (ht : t ≠ u) : (a.ready u).task t = a.task t := by
  unfold Queues.ready
  split
  · rw [setTask_task, Function.update_of_ne ht]
  · rfl

theorem ready_state (ht : t ≠ idleTask) : ((a.ready t).task t).state = .ready := by
  unfold Queues.ready
  rw [if_pos ht, setTask_task, Function.update_self]

@[simp] theorem block_line (ht : t ≠ idleTask) :
    (a.block t).line = take a.line .ready t := by
  simp [block, ht]

@[simp] theorem block_curr : (a.block t).curr = a.curr := by
  unfold block
  split <;> rfl

@[simp] theorem block_task : (a.block t).task = a.task := by
  unfold block
  split <;> rfl

@[simp] theorem block_idle : a.block idleTask = a := by
  simp [block]

@[simp] theorem ready_idle : a.ready idleTask = a := by
  simp [ready]

/-- A dispatch makes the next task current. -/
@[simp] theorem dispatch_curr : a.dispatch.1.curr = a.next := by
  unfold dispatch
  split
  · rfl
  · rename_i h
    simpa using (not_not.mp h).symm

@[simp] theorem dispatch_line : a.dispatch.1.line = a.line := by
  unfold dispatch
  split <;> rfl

@[simp] theorem dispatch_sleepTicks :
    (a.dispatch.1.task u).sleepTicks = (a.task u).sleepTicks := by
  unfold dispatch
  split
  · by_cases hu : u = a.next
    · subst hu
      simp
    · simp [hu]
  · rfl

theorem dispatch_task_of_ne (ht : t ≠ a.next) : a.dispatch.1.task t = a.task t := by
  unfold dispatch
  split
  · rw [setTask_task, Function.update_of_ne ht]
  · rfl

theorem dispatch_state_next (hn : a.next ≠ a.curr) :
    (a.dispatch.1.task a.next).state = .running := by
  unfold dispatch
  rw [if_pos hn]
  simp only [setTask_task, Function.update_self]

theorem dispatch_of_eq (hn : a.next = a.curr) : a.dispatch = (a, false) := by
  unfold dispatch
  rw [if_neg (not_not.mpr hn)]

/-- While the first ready task is current, a dispatch changes nothing. -/
theorem dispatch_of_head (hc : (a.line .ready).head? = some a.curr) : a.dispatch = (a, false) := by
  refine dispatch_of_eq ?_
  unfold next
  rw [hc]
  rfl

/-- The last dispatch of an operation ends in the dispatched state, suspended or not. -/
@[simp] theorem leave_state : a.leave.state = a.dispatch.1 := by
  unfold leave
  split <;> (rename_i h; simp [Stretch.state, h])

/-- The next task is the idle task or the first ready task. -/
theorem next_cases : a.next = idleTask ∨ (a.line .ready).head? = some a.next := by
  unfold next
  cases h : (a.line .ready).head? with
  | none => exact Or.inl rfl
  | some t => exact Or.inr rfl

/-- A dispatch establishes the part of the invariant about the current task. -/
theorem Steady.dispatch (h : Steady a) : Inv a.dispatch.1 where
  placed := by simpa using h.placed
  asleep t ht := by simpa using h.asleep t (by simpa using ht)
  curr := by simpa using next_cases

theorem Steady.leave (h : Steady a) : Inv a.leave.state := by
  rw [leave_state]
  exact h.dispatch

/-- A current task other than the idle one is the first ready task. -/
theorem Inv.curr_ready (h : Inv a) (hc : a.curr ≠ idleTask) :
    (a.line .ready).head? = some a.curr :=
  h.curr.resolve_left hc

theorem Inv.curr_mem (h : Inv a) (hc : a.curr ≠ idleTask) : a.curr ∈ a.line .ready :=
  List.mem_of_mem_head? (h.curr_ready hc)

/-- The idle task starts no operation, the timer interrupts it. -/
theorem ne_idle_of_may {c : Call M S} (hmay : queues.may c a = true) (hc : c ≠ .timer) :
    a.curr ≠ idleTask := by
  simpa [queues, hc] using hmay

/-- Nobody in a line is the idle task. -/
theorem Steady.ne_idle (h : Steady a) {p : Place M S} (ht : t ∈ a.line p) : t ≠ idleTask :=
  (h.placed.mem_iff t).mpr ⟨p, ht⟩

/-- The store of a task record that keeps its sleep ticks changes nothing for the lines. -/
theorem Steady.setTask (h : Steady a) {v : TaskT}
    (hv : v.sleepTicks = (a.task t).sleepTicks) : Steady (a.setTask t v) where
  placed := h.placed
  asleep u hu := by
    by_cases hut : u = t
    · subst hut
      simpa [hv] using h.asleep u hu
    · simpa [hut] using h.asleep u hu

/-! ### The sleep pass -/

/-- The task is in the last tick of its sleep. -/
def due (a : Queues T M S) (t : T) : Bool := (a.task t).sleepTicks == 1

/-- The state after a sleep pass over the tasks of `ts`. -/
def afterSleep (a : Queues T M S) (ts : List T) : Queues T M S :=
  { a with
    line := fun p =>
      match p with
      | .ready => a.line .ready ++ ts.filter a.due
      | .sleep => (a.line .sleep).filter (fun u => !(decide (u ∈ ts) && a.due u))
      | .wait o => a.line (.wait o)
    task := fun u =>
      if u ∈ ts then
        { a.task u with
          sleepTicks := (a.task u).sleepTicks - 1
          state := if a.due u then .ready else (a.task u).state }
      else a.task u }

@[simp] theorem afterSleep_ready (ts : List T) :
    (a.afterSleep ts).line .ready = a.line .ready ++ ts.filter a.due := rfl

@[simp] theorem afterSleep_sleep (ts : List T) :
    (a.afterSleep ts).line .sleep
      = (a.line .sleep).filter (fun u => !(decide (u ∈ ts) && a.due u)) := rfl

@[simp] theorem afterSleep_wait (ts : List T) (o : Obj M S) :
    (a.afterSleep ts).line (.wait o) = a.line (.wait o) := rfl

theorem afterSleep_task_of_mem (a : Queues T M S) {ts : List T} (hu : u ∈ ts) :
    (a.afterSleep ts).task u =
      { a.task u with
        sleepTicks := (a.task u).sleepTicks - 1
        state := if a.due u then .ready else (a.task u).state } := by
  simp only [afterSleep, if_pos hu]

theorem afterSleep_task_of_not_mem (a : Queues T M S) {ts : List T} (hu : u ∉ ts) :
    (a.afterSleep ts).task u = a.task u := by
  simp only [afterSleep, if_neg hu]

/-- A pass over others leaves a task as due as it was. -/
theorem due_afterSleep {ts : List T} (hu : u ∉ ts) : (a.afterSleep ts).due u = a.due u := by
  unfold due
  rw [afterSleep_task_of_not_mem a hu]

/-- One round of the sleep loop is a sleep pass over one task. -/
theorem sleepStep_eq (hd : (a.line .sleep).Nodup) (ht : t ≠ idleTask)
    (h₁ : 1 ≤ (a.task t).sleepTicks) (h₂ : (a.task t).sleepTicks < 2 ^ 31) :
    a.sleepStep t = a.afterSleep [t] := by
  have hint : toInt ((a.task t).sleepTicks - 1) = (a.task t).sleepTicks - 1 :=
    toInt_of_fits (by omega) (by omega)
  -- The source unlinks one sleeper, the pass filters the line.
  have hfilter : (a.line .sleep).filter (fun u => !(decide (u ∈ [t]) && a.due u))
      = if a.due t then (a.line .sleep).erase t else a.line .sleep := by
    cases hb : a.due t with
    | false =>
      refine (List.filter_eq_self.mpr fun u _ => ?_).trans (if_neg (by simp)).symm
      by_cases hu : u = t <;> simp [hu, hb]
    | true =>
      rw [if_pos rfl, hd.erase_eq_filter]
      refine List.filter_congr fun u _ => ?_
      by_cases hu : u = t <;> simp [hu, hb]
  unfold sleepStep
  simp only [setTask_task, Function.update_self, hint]
  by_cases hdue : (a.task t).sleepTicks = 1
  · -- The last tick: the sleeper wakes up.
    have hb : a.due t = true := by simp [due, hdue]
    rw [if_pos (by omega)]
    refine Queues.ext (by simp [afterSleep]) (funext fun p => ?_) (funext fun u => ?_)
      (by simp [ready, ht, setTask, afterSleep]) (by simp [ready, ht, setTask, afterSleep])
      (by simp [ready, ht, setTask, afterSleep])
    · rw [ready_line ht]
      cases p with
      | ready => simp [hb]
      | sleep => rw [afterSleep_sleep, hfilter, hb]; simp
      | wait o => simp
    · by_cases hu : u = t
      · subst hu
        rw [afterSleep_task_of_mem a (by simp)]
        simp [ready, ht, hb]
      · rw [afterSleep_task_of_not_mem a (by simpa using hu)]
        simp [ready, ht, hu]
  · have hb : a.due t = false := by simp [due, hdue]
    rw [if_neg (by omega)]
    refine Queues.ext rfl (funext fun p => ?_) (funext fun u => ?_) rfl rfl rfl
    · cases p with
      | ready => simp [hb]
      | sleep => rw [afterSleep_sleep, hfilter, hb]; simp
      | wait o => simp
    · by_cases hu : u = t
      · subst hu
        rw [afterSleep_task_of_mem a (by simp)]
        simp [hb]
      · rw [afterSleep_task_of_not_mem a (by simpa using hu)]
        simp [hu]

/-- A pass over one task and then over others is one pass over all of them. -/
theorem afterSleep_cons {ts : List T} (ht : t ∉ ts) :
    (a.afterSleep [t]).afterSleep ts = a.afterSleep (t :: ts) := by
  have hne : ∀ u ∈ ts, u ∉ [t] := by
    intro u hu hut
    exact ht (List.mem_singleton.mp hut ▸ hu)
  have hdue : ∀ u ∈ ts, (a.afterSleep [t]).due u = a.due u :=
    fun u hu => due_afterSleep (hne u hu)
  apply Queues.ext
  · rfl
  · funext p
    cases p with
    | ready =>
      have hf : ts.filter (a.afterSleep [t]).due = ts.filter a.due := List.filter_congr hdue
      rw [afterSleep_ready, afterSleep_ready, afterSleep_ready, hf, List.append_assoc,
        ← List.filter_append, List.singleton_append]
    | sleep =>
      -- The two filters are one: the first pass leaves the others as due as they were.
      simp only [afterSleep_sleep, List.filter_filter]
      apply List.filter_congr
      intro u _
      by_cases hu : u ∈ ts
      · have hut : u ≠ t := by simpa using hne u hu
        simp [hu, hdue u hu, hut]
      · simp [hu]
    | wait o => rfl
  · funext u
    by_cases hu : u ∈ ts
    · have hu' : u ∈ t :: ts := by simp [hu]
      rw [afterSleep_task_of_mem _ hu, afterSleep_task_of_mem _ hu', hdue u hu,
        afterSleep_task_of_not_mem _ (hne u hu)]
    · rw [afterSleep_task_of_not_mem _ hu]
      by_cases hut : u = t
      · subst hut
        rw [afterSleep_task_of_mem _ (by simp), afterSleep_task_of_mem _ (by simp)]
      · rw [afterSleep_task_of_not_mem _ (by simpa using hut),
          afterSleep_task_of_not_mem _ (by simp [hut, hu])]
  · rfl
  · rfl
  · rfl

/-- The sleep loop over a repeat-free list of sleepers. The induction is on the tasks still
to visit. -/
theorem foldl_sleepStep (ts : List T) :
    ∀ a : Queues T M S, (a.line .sleep).Nodup → ts.Nodup →
      (∀ t ∈ ts, t ≠ idleTask ∧ 1 ≤ (a.task t).sleepTicks ∧ (a.task t).sleepTicks < 2 ^ 31) →
      ts.foldl sleepStep a = a.afterSleep ts := by
  induction ts with
  | nil =>
    intro a _ _ _
    exact Queues.ext rfl (funext fun p => by cases p <;> simp)
      (funext fun u => by simp [afterSleep_task_of_not_mem]) rfl rfl rfl
  | cons t ts ih =>
    intro a hd hts h
    obtain ⟨htn, hts'⟩ := List.nodup_cons.mp hts
    obtain ⟨hti, h₁, h₂⟩ := h t (by simp)
    rw [List.foldl_cons, sleepStep_eq hd hti h₁ h₂, ih, afterSleep_cons htn]
    · exact hd.filter _
    · exact hts'
    · intro u hu
      have hut : u ≠ t := by
        rintro rfl
        exact htn hu
      rw [afterSleep_task_of_not_mem a (by simpa using hut)]
      exact h u (by simp [hu])

/-- What the sleep pass does to all sleepers at once. -/
theorem sleepAll_eq (h : Steady a) : a.sleepAll = a.afterSleep (a.line .sleep) := by
  have hd := h.placed.nodup .sleep
  exact foldl_sleepStep _ a hd hd (fun t ht => ⟨h.ne_idle ht, h.asleep t ht⟩)

theorem sleepAll_curr (h : Steady a) : a.sleepAll.curr = a.curr := by
  rw [sleepAll_eq h]
  rfl

/-- Who stands where after a pass over all sleepers: a due sleeper in the ready line,
everybody else as before. -/
theorem mem_afterSleep (h : Apart a.line) {p : Place M S} :
    u ∈ (a.afterSleep (a.line .sleep)).line p ↔
      if u ∈ a.line .sleep ∧ a.due u = true then p = .ready else u ∈ a.line p := by
  split
  · rename_i hu
    -- A due sleeper stands in no line but the sleep line before the pass.
    have hne : u ∈ a.line p → p = .sleep := fun hp => h.disjoint p .sleep u hp hu.1
    cases p with
    | ready => simp [hu]
    | sleep => simp [hu]
    | wait o => simpa using fun hp => absurd (hne hp) (by simp)
  · rename_i hu
    cases p with
    | ready =>
      simp only [afterSleep_ready, List.mem_append, List.mem_filter]
      tauto
    | sleep =>
      simp only [afterSleep_sleep, List.mem_filter]
      constructor
      · exact fun hx => hx.1
      · intro hx
        refine ⟨hx, ?_⟩
        have hdue : a.due u = false := by
          simpa using fun hd => hu ⟨hx, hd⟩
        simp [hdue]
    | wait o => rfl

/-- The sleep pass keeps every task placed once and leaves ticks to the sleepers. -/
theorem Steady.sleepAll (h : Steady a) : Steady a.sleepAll := by
  rw [sleepAll_eq h]
  have hap := h.placed.toApart
  refine ⟨⟨⟨fun p => ?_, fun p q x hp hq => ?_⟩, fun x => ?_⟩, fun x hx => ?_⟩
  · cases p with
    | ready =>
      refine List.nodup_append.mpr ⟨hap.nodup .ready, (hap.nodup .sleep).filter _, ?_⟩
      rintro x hx y hy rfl
      exact absurd (hap.disjoint .ready .sleep x hx (List.mem_of_mem_filter hy)) (by simp)
    | sleep => exact (hap.nodup .sleep).filter _
    | wait o => exact hap.nodup (.wait o)
  · rw [mem_afterSleep hap] at hp hq
    split at hp
    · rename_i hx
      rw [if_pos hx] at hq
      exact hp.trans hq.symm
    · rename_i hx
      rw [if_neg hx] at hq
      exact hap.disjoint p q x hp hq
  · rw [h.placed.mem_iff]
    simp only [mem_afterSleep hap]
    split
    · rename_i hx
      exact ⟨fun _ => ⟨_, rfl⟩, fun _ => ⟨.sleep, hx.1⟩⟩
    · rfl
  · rw [mem_afterSleep hap] at hx
    split at hx
    · exact absurd hx (by simp)
    · -- A sleeper that stays had more than one tick.
      rename_i hn
      have hne : (a.task x).sleepTicks ≠ 1 := fun hd => hn ⟨hx, by simp [due, hd]⟩
      obtain ⟨h₁, h₂⟩ := h.asleep x hx
      rw [afterSleep_task_of_mem a hx]
      simp only
      omega

/-! ### The operations -/

/-- A state with the same lines and sleep ticks is as steady. -/
theorem Steady.of_eq {b : Queues T M S} (h : Steady a) (hl : b.line = a.line)
    (ht : ∀ t ∈ a.line .sleep, (b.task t).sleepTicks = (a.task t).sleepTicks) : Steady b where
  placed := by
    rw [hl]
    exact h.placed
  asleep t hm := by
    rw [hl] at hm
    rw [ht t hm]
    exact h.asleep t hm

/-- A move of one task between lines keeps the state steady, when a task that falls asleep
gets its ticks. -/
theorem Steady.of_move {b : Queues T M S} {p q : Place M S} (h : Steady a)
    (ht : t ∈ a.line p) (hl : b.line = put (take a.line p t) q t)
    (htick : ∀ u, u ≠ t → (b.task u).sleepTicks = (a.task u).sleepTicks)
    (hq : q = .sleep → 1 ≤ (b.task t).sleepTicks ∧ (b.task t).sleepTicks < 2 ^ 31) :
    Steady b where
  placed := by
    rw [hl]
    exact h.placed.move ht q
  asleep u hu := by
    rw [hl, mem_put, mem_take h.placed.toApart] at hu
    by_cases hut : u = t
    · subst hut
      rcases hu with ⟨hu, hn⟩ | ⟨hs, -⟩
      · exact absurd ⟨h.placed.disjoint _ _ u hu ht, rfl⟩ hn
      · exact hq hs.symm
    · rw [htick u hut]
      exact h.asleep u (hu.resolve_right fun hn => hut hn.2).1

/-- A stretch that ends without a dispatch and without a move keeps the invariant. -/
theorem Inv.of_eq {b : Queues T M S} (h : Inv a) (hl : b.line = a.line)
    (ht : b.task = a.task) (hc : b.curr = a.curr) : Inv b where
  toSteady := h.toSteady.of_eq hl (by simp [ht])
  curr := by
    rw [hl, hc]
    exact h.curr

/-- The first half of a timer interrupt moves the current task inside the ready line at
most. -/
theorem Inv.afterSlice (h : Inv a) : Steady a.afterSlice := by
  unfold Queues.afterSlice
  split
  · by_cases hc : a.curr = idleTask
    · rw [hc]
      simp only [block_idle, ready_idle]
      refine h.toSteady.of_eq rfl fun u hu => ?_
      simp [h.ne_idle hu]
    · refine h.toSteady.of_move (h.curr_mem hc) (q := .ready) ?_ (fun u hu => ?_) (by simp)
      · rw [ready_line hc, block_line hc, setTask_line]
      · simp [hu]
  · refine h.toSteady.of_eq rfl fun u _ => ?_
    by_cases hu : u = a.curr
    · subst hu
      simp
    · simp [hu]

theorem Steady.timerSleep (h : Steady a) : Inv a.timerSleep.state :=
  h.sleepAll.leave

theorem Inv.timer (h : Inv a) : Inv a.timer.state := by
  have hs := h.afterSlice
  unfold Queues.timer
  split
  · split
    · rename_i b hb
      have hd := hs.dispatch
      rw [hb] at hd
      exact hd
    · rename_i b hb
      have hd := hs.dispatch
      rw [hb] at hd
      exact hd.toSteady.timerSleep
  · exact hs.timerSleep

/-- The current task goes to the end of the ready line. -/
theorem Inv.requeue (h : Inv a) (hc : a.curr ≠ idleTask) :
    Steady ((a.block a.curr).ready a.curr) := by
  refine h.toSteady.of_move (h.curr_mem hc) (q := .ready) ?_ ?_ (by simp)
  · rw [ready_line hc, block_line hc]
  · simp

theorem Inv.yield (h : Inv a) (hc : a.curr ≠ idleTask) : Inv a.yield.state := by
  unfold Queues.yield
  split
  · exact (h.requeue hc).leave
  · exact h

/-- A sleep that fits is a positive number of ticks in the range of `int`. -/
theorem ticks_bounds {ms : Nat} (hms : ms ≤ 4294967286) : 1 ≤ ticks ms ∧ ticks ms < 2 ^ 31 := by
  unfold ticks
  split <;> omega

/-- The current task goes to sleep. -/
theorem Inv.fallAsleep (h : Inv a) (hc : a.curr ≠ idleTask) {ms : Nat} (hms : ms ≤ 4294967286) :
    Steady (({ a.block a.curr with
      line := put (a.block a.curr).line .sleep a.curr } : Queues T M S).setTask a.curr
        { a.task a.curr with sleepTicks := toInt (ticks ms), state := .sleep }) := by
  obtain ⟨h₁, h₂⟩ := ticks_bounds hms
  have hint : toInt (ticks ms : Int) = ticks ms := toInt_of_fits (by omega) (by omega)
  refine h.toSteady.of_move (h.curr_mem hc) (q := .sleep) ?_ ?_ ?_
  · simp [block_line hc]
  · intro u hu
    simp [hu]
  · intro _
    simp only [setTask_task, Function.update_self, hint]
    omega

/-- `msleep` with a sleep that fits. -/
theorem msleep_eq {ms : Nat} (hms : ms ≤ 4294967286) : a.msleep ms
    = leave (({ a.block a.curr with
      line := put (a.block a.curr).line .sleep a.curr } : Queues T M S).setTask a.curr
        { a.task a.curr with sleepTicks := toInt (ticks ms), state := .sleep }) := by
  have hpos := (ticks_bounds hms).1
  unfold Queues.msleep
  simp only [block_curr, block_task, if_neg (by omega : ¬ ticks ms = 0)]

theorem Inv.msleep (h : Inv a) (hc : a.curr ≠ idleTask) {ms : Nat} (hms : ms ≤ 4294967286) :
    Inv (a.msleep ms).state := by
  rw [msleep_eq hms]
  exact (h.fallAsleep hc hms).leave

/-- The current task blocks in the wait line of an object. -/
theorem Inv.wait (h : Inv a) (hc : a.curr ≠ idleTask) (o : Obj M S) :
    Steady { a.block a.curr with line := put (a.block a.curr).line (.wait o) a.curr } := by
  refine h.toSteady.of_move (h.curr_mem hc) (q := .wait o) ?_ ?_ (by simp)
  · simp [block_line hc]
  · simp

/-- The first waiter of an object becomes ready. -/
theorem Inv.wakeFirst (h : Inv a) {o : Obj M S} {w : T} {ws : List T}
    (hw : a.line (.wait o) = w :: ws) :
    Steady ({ a with line := take a.line (.wait o) w }.ready w) := by
  have hm : w ∈ a.line (.wait o) := by simp [hw]
  refine h.toSteady.of_move hm (q := .ready) ?_ ?_ (by simp)
  · rw [ready_line (h.ne_idle hm)]
  · simp

/-- What an operation on a mutex or a semaphore leaves at its next switch. It counts; or the
caller is in the wait line of the object; or the first waiter is ready. -/
inductive IpcStep (a : Queues T M S) (o : Obj M S) : Queues T M S → Prop
  | count (owner : M → Option T) (lockedCount : M → Int) (semCount : S → Int) :
      IpcStep a o { a with owner, lockedCount, semCount }
  | wait : IpcStep a o
      (leave { a.block a.curr with line := put (a.block a.curr).line (.wait o) a.curr }).state
  | wake {w : T} {ws : List T} (hw : a.line (.wait o) = w :: ws) (owner : M → Option T)
      (lockedCount : M → Int) : IpcStep a o
      (leave { { a with line := take a.line (.wait o) w }.ready w with owner, lockedCount }).state

theorem lock_step (a : Queues T M S) (m : M) : IpcStep a (.mutex m) (a.lock m).state := by
  unfold Queues.lock
  split
  · exact .count _ _ _
  · split
    · exact .count _ _ _
    · exact .wait

theorem unlock_step (a : Queues T M S) (m : M) : IpcStep a (.mutex m) (a.unlock m).state := by
  unfold Queues.unlock
  split
  · split
    · split
      · rename_i w ws hw
        exact .wake hw _ _
      · exact .count _ _ _
    · exact .count _ _ _
  · exact .count _ _ _

theorem semWait_step (a : Queues T M S) (x : S) : IpcStep a (.sem x) (a.semWait x).state := by
  unfold Queues.semWait
  split
  · exact .count _ _ _
  · exact .wait

theorem semNotify_step (a : Queues T M S) (x : S) : IpcStep a (.sem x) (a.semNotify x).state := by
  unfold Queues.semNotify
  split
  · rename_i w ws hw
    exact .wake hw _ _
  · exact .count _ _ _

theorem Inv.ipc {b : Queues T M S} {o : Obj M S} (h : Inv a) (hc : a.curr ≠ idleTask)
    (hs : IpcStep a o b) : Inv b := by
  cases hs with
  | count => exact h.of_eq rfl rfl rfl
  | wait => exact (h.wait hc o).leave
  | wake hw => exact Steady.leave ((h.wakeFirst hw).of_eq rfl fun _ _ => rfl)

/-- Every operation that the current task may start keeps the invariant up to its next
switch. -/
theorem Inv.start (h : Inv a) {c : Call M S} (hfit : SleepFits (.start c))
    (hmay : queues.may c a = true) : Inv (Queues.start c a).state := by
  have hc : c ≠ .timer → a.curr ≠ idleTask := fun hne => Queues.ne_idle_of_may hmay hne
  cases c with
  | schedYield => exact h.yield (hc (by simp))
  | msleep ms => exact h.msleep (hc (by simp)) hfit
  | mutexLock m => exact h.ipc (hc (by simp)) (a.lock_step m)
  | mutexUnlock m => exact h.ipc (hc (by simp)) (a.unlock_step m)
  | semWait x => exact h.ipc (hc (by simp)) (a.semWait_step x)
  | semNotify x => exact h.ipc (hc (by simp)) (a.semNotify_step x)
  | timer => exact h.timer

/-- The rest of a switched-out operation keeps the invariant. -/
theorem Inv.resume (h : Inv a) (k : Rest) : Inv (Queues.resume k a).state := by
  cases k with
  | leave => exact h
  | sleepPass => exact h.toSteady.timerSleep

/-! ### What comes next -/

/-- The current task leaves the front of the ready line, and it comes back at the end at most.
Another task is next, unless it is the only one that is ready. -/
theorem Inv.next_ne_of_erase {b : Queues T M S} (h : Inv a) (hc : a.curr ≠ idleTask) {r : List T}
    (hl : b.line .ready = (a.line .ready).erase a.curr ++ r)
    (hr : r = [] ∨ 1 < (a.line .ready).length) : b.next ≠ a.curr := by
  have hhead := h.curr_ready hc
  have hnd := h.placed.nodup .ready
  intro he
  unfold next at he
  cases hline : a.line .ready with
  | nil =>
    rw [hline] at hhead
    cases hhead
  | cons x xs =>
    rw [hline] at hhead hnd hl hr
    obtain rfl : x = a.curr := Option.some.inj hhead
    rw [List.erase_cons_head] at hl
    rw [hl] at he
    cases xs with
    | nil =>
      -- Then nobody is ready, and the idle task is next.
      have hnil : r = [] := hr.resolve_right (by simp)
      rw [hnil] at he
      exact hc he.symm
    | cons y ys =>
      obtain rfl : y = a.curr := he
      exact (List.nodup_cons.mp hnd).1 List.mem_cons_self

/-- The current task goes to the end of a line. Another task is next, if the line is not the ready
line or another task is ready. -/
theorem Inv.next_ne_of_move {b : Queues T M S} {p : Place M S} (h : Inv a)
    (hc : a.curr ≠ idleTask) (hl : b.line = put (take a.line .ready a.curr) p a.curr)
    (hp : p = .ready → 1 < (a.line .ready).length) : b.next ≠ a.curr := by
  by_cases hpr : p = .ready
  · refine h.next_ne_of_erase hc (r := [a.curr]) ?_ (Or.inr (hp hpr))
    rw [hl, hpr, Placement.put_self, Placement.take_self]
  · refine h.next_ne_of_erase hc (r := []) ?_ (Or.inl rfl)
    rw [hl, Placement.put_of_ne _ _ (Ne.symm hpr), Placement.take_self, List.append_nil]

end StartKernel.Queues
