import StartKernel.Proofs.Scheduler

/-!
# `StartKernel.Proofs.Sleep`: how long a sleep lasts

A sleep of `ms` milliseconds lasts `sleepLength ms` ticks. `task_time_tick` counts the
sleepers down behind a `task_dispatch` that may switch, so a tick that ends a slice can
leave the sleepers for later.

* `Asleep.start` / `Asleep.resume`: no operation but the timer touches a sleeper.
* `Asleep.timer`: a timer interrupt that does not switch at the end of the slice takes one
  tick from every sleeper, and the last tick makes the sleeper ready.
* `sleep_lasts`: in a run in which no tick of a sleeper is put off, the sleeper becomes
  ready in exactly the last of its ticks.
* `sleep_late`: the run in which a sleep of ten ticks is still going on after the tenth.
-/

set_option autoImplicit false
set_option linter.unusedSectionVars false

namespace StartKernel

open Function (update)
open Suspend (run step step_cases Meets ConfigRel Stretch)
open Trace (run_concat)
open Placement (put take)

variable {T M S : Type} [DecidableEq T] [HasIdle T] [DecidableEq M] [DecidableEq S]

/-! ### Sleepers in their line -/

namespace Queues

variable {a b : Queues T M S} {t u : T} {k : Int}

/-- The task sleeps and has `k` ticks left. -/
structure Asleep (t : T) (k : Int) (a : Queues T M S) : Prop where
  mem : t ∈ a.line .sleep
  ticks : (a.task t).sleepTicks = k

/-- A change that keeps the sleep line and the ticks of the sleeper. -/
theorem Asleep.of_eq (h : Asleep t k a) (hl : b.line .sleep = a.line .sleep)
    (ht : (b.task t).sleepTicks = (a.task t).sleepTicks) : Asleep t k b :=
  ⟨hl ▸ h.mem, ht.trans h.ticks⟩

theorem Asleep.ready (h : Asleep t k a) (u : T) : Asleep t k (a.ready u) := by
  by_cases hu : u = idleTask
  · subst hu
    simpa using h
  · exact h.of_eq (by simp [hu]) (by simp)

theorem Asleep.block (h : Asleep t k a) (u : T) : Asleep t k (a.block u) := by
  by_cases hu : u = idleTask
  · subst hu
    simpa using h
  · exact h.of_eq (by simp [hu]) (by simp)

theorem Asleep.leave (h : Asleep t k a) : Asleep t k a.leave.state := by
  rw [leave_state]
  exact h.of_eq (by simp) (by simp)

/-- A move between lines other than the sleep line. -/
theorem Asleep.reline (h : Asleep t k a) {line : Place M S → List T}
    (hl : line .sleep = a.line .sleep) : Asleep t k { a with line } :=
  h.of_eq hl rfl

theorem Asleep.ipc {b : Queues T M S} {o : Obj M S} (h : Asleep t k a) (hs : IpcStep a o b) :
    Asleep t k b := by
  cases hs with
  | count => exact h.of_eq rfl rfl
  | wait => exact ((h.block a.curr).reline (by simp)).leave
  | @wake w _ _ =>
    have hw : Asleep t k { a with line := take a.line (.wait o) w } := h.reline (by simp)
    exact Asleep.leave ((hw.ready w).of_eq rfl rfl)

/-- The current task does not sleep. -/
theorem Inv.curr_ne (hinv : Inv a) (h : Asleep t k a) : t ≠ a.curr := by
  rintro rfl
  have hi := hinv.ne_idle h.mem
  exact absurd (hinv.placed.disjoint _ _ _ h.mem (hinv.curr_mem hi)) (by simp)

/-- No operation but the timer touches a sleeper. -/
theorem Asleep.start (h : Asleep t k a) (hinv : Inv a) {c : Call M S} (hc : c ≠ .timer) :
    Asleep t k (Queues.start c a).state := by
  have hne := hinv.curr_ne h
  cases c with
  | schedYield =>
    show Asleep t k a.yield.state
    unfold yield
    split
    · exact ((h.block _).ready _).leave
    · exact h
  | msleep ms =>
    show Asleep t k (a.msleep ms).state
    have hb := h.block a.curr
    unfold msleep
    dsimp only
    split
    · exact hb.leave
    · -- The caller joins the sleep line, and it is not the sleeper.
      refine Asleep.leave ⟨?_, ?_⟩
      · simp [hb.mem]
      · simpa [hne] using h.ticks
  | mutexLock m => exact h.ipc (a.lock_step m)
  | mutexUnlock m => exact h.ipc (a.unlock_step m)
  | semWait x => exact h.ipc (a.semWait_step x)
  | semNotify x => exact h.ipc (a.semNotify_step x)
  | timer => exact absurd rfl hc

/-- A sleep pass takes one tick from a sleeper. The last tick makes it ready. -/
theorem Asleep.timerSleep (h : Asleep t k a) (hs : Steady a) :
    (k = 1 → t ∈ a.timerSleep.state.line .ready) ∧
    (k ≠ 1 → Asleep t (k - 1) a.timerSleep.state) := by
  have hdue : a.due t = true ↔ k = 1 := by
    simp [due, h.ticks]
  have hline : ∀ p, t ∈ (a.afterSleep (a.line .sleep)).line p ↔
      if t ∈ a.line .sleep ∧ a.due t = true then p = .ready else t ∈ a.line p :=
    fun _ => mem_afterSleep hs.placed.toApart
  unfold Queues.timerSleep
  rw [sleepAll_eq hs, leave_state]
  simp only [dispatch_line]
  constructor
  · intro hk
    rw [hline, if_pos ⟨h.mem, hdue.mpr hk⟩]
  · intro hk
    refine ⟨?_, ?_⟩
    · rw [dispatch_line, hline, if_neg (fun hn => hk (hdue.mp hn.2))]
      exact h.mem
    · rw [dispatch_sleepTicks, afterSleep_task_of_mem a h.mem, h.ticks]

/-- The end of the slice switches to another task. -/
def sliceEndSwitches (a : Queues T M S) : Prop :=
  a.sliceOver ∧ (if a.curr = idleTask then 0 else 1) < (a.line .ready).length

/-- Without another ready task, the current one stays current at the end of its slice. -/
theorem Inv.afterSlice_next (hinv : Inv a)
    (hlen : ¬ (if a.curr = idleTask then 0 else 1) < (a.line .ready).length) :
    a.afterSlice.next = a.curr := by
  by_cases hc : a.curr = idleTask
  · rw [if_pos hc] at hlen
    have hr : a.line .ready = [] := List.length_eq_zero_iff.mp (by omega)
    unfold next Queues.afterSlice
    split <;> simp [hc, hr]
  · rw [if_neg hc] at hlen
    have hm := hinv.curr_mem hc
    obtain ⟨u, hu⟩ : ∃ u, a.line .ready = [u] :=
      List.length_eq_one_iff.mp (by have := List.length_pos_of_mem hm; omega)
    obtain rfl : a.curr = u := by simpa [hu] using hm
    unfold next Queues.afterSlice
    split <;> simp [hc, hu]

@[simp] theorem afterSlice_curr : a.afterSlice.curr = a.curr := by
  unfold Queues.afterSlice
  split
  · rw [ready_curr, block_curr, setTask_curr]
  · rfl

/-- A timer interrupt that switches at the end of the slice stops there. -/
theorem timer_state_of_switch (hover : a.sliceOver = true)
    (hnext : a.afterSlice.next ≠ a.afterSlice.curr) :
    a.timer.state = a.afterSlice.dispatch.1 := by
  have hd : a.afterSlice.dispatch.2 = true := by
    unfold dispatch
    rw [if_pos hnext]
  unfold Queues.timer
  rw [if_pos hover]
  split
  · rename_i b hb
    rw [hb]
    rfl
  · rename_i b hb
    rw [hb] at hd
    cases hd

/-- A timer interrupt that does not switch at the end of the slice runs its sleep pass. -/
theorem Inv.timer_eq (hinv : Inv a) (hno : ¬ a.sliceEndSwitches) :
    a.timer = a.afterSlice.timerSleep := by
  unfold Queues.timer
  split
  · rename_i ho
    have hnext := hinv.afterSlice_next fun hlen => hno ⟨ho, hlen⟩
    rw [dispatch_of_eq (hnext.trans afterSlice_curr.symm)]
  · rfl

/-- A timer interrupt that does not switch at the end of the slice takes one tick from a
sleeper. -/
theorem Asleep.timer (h : Asleep t k a) (hinv : Inv a) (hno : ¬ a.sliceEndSwitches) :
    (k = 1 → t ∈ a.timer.state.line .ready) ∧
    (k ≠ 1 → Asleep t (k - 1) a.timer.state) := by
  rw [hinv.timer_eq hno]
  have hne := hinv.curr_ne h
  refine Asleep.timerSleep ?_ hinv.afterSlice
  unfold Queues.afterSlice
  split
  · refine (Asleep.block ?_ _).ready _
    exact h.of_eq rfl (by simp [hne])
  · exact h.of_eq rfl (by simp [hne])

/-- What `sys_msleep` does to its caller. -/
theorem asleep_msleep (a : Queues T M S) {ms : Nat} (hms : ms ≤ 4294967286) :
    Asleep a.curr (ticks ms) (a.msleep ms).state := by
  obtain ⟨h₁, h₂⟩ := ticks_bounds hms
  have hint : toInt (ticks ms : Int) = ticks ms := toInt_of_fits (by omega) (by omega)
  unfold Queues.msleep
  simp only [block_curr, if_neg (by omega : ¬ ticks ms = 0)]
  exact Asleep.leave ⟨by simp, by simp [hint]⟩

end Queues

/-! ### Runs -/

/-- The number of timer interrupts in a run. -/
def timers (ls : List (KLabel M S)) : Nat := ls.count (.start .timer)

/-- The length of a sleep in ticks: `ms`, and at least one tick, rounded up. -/
def sleepLength (ms : Nat) : Nat := (max ms OS_TICK_MS + (OS_TICK_MS - 1)) / OS_TICK_MS

/-- The end of the slice of the current task switches to another ready task. -/
def Sched.sliceEndSwitches (s : Sched T M S) : Prop :=
  toInt ((s.task s.currTask).sliceTicks - 1) = 0 ∧
  (if s.currTask = idleTask then 0 else 1) < listCount s.readyList

/-- The step puts off no tick of the task `t`: while `t` sleeps, no slice ends with a switch
and no sleep pass that was put off before is made up for. -/
def InTime (t : T) (c : KConfig T M S) (l : KLabel M S) : Prop :=
  c.st.InList .sleep t →
    match l with
    | .start .timer => ¬ c.st.sliceEndSwitches
    | .start _ => True
    | .resume => ∀ a, c.pend c.st.currTask ≠ some (a, .sleepPass)

/-- After the steps `ls` of a run from `c`, the sleep of `t` over `n` ticks is right: the
task sleeps until the `n`-th timer interrupt, and is ready after it. -/
def SleepLasts (c : KConfig T M S) (t : T) (n : Nat) (ls : List (KLabel M S)) : Prop :=
  ∀ c', run kernel c ls = some c' →
    (timers ls < n → c'.st.InList .sleep t ∧ ¬ c'.st.InList .ready t) ∧
    (timers ls = n → ls.getLast? = some (.start .timer) → c'.st.InList .ready t)

instance (s : Sched T M S) : Decidable s.sliceEndSwitches :=
  inferInstanceAs (Decidable (_ ∧ _))

/-- The same condition on the steps of the lines. -/
def InTimeLines (t : T) (d : QConfig T M S) (l : KLabel M S) : Prop :=
  t ∈ d.st.line .sleep →
    match l with
    | .start .timer => ¬ d.st.sliceEndSwitches
    | .start _ => True
    | .resume => ∀ a, d.pend d.st.curr ≠ some (a, .sleepPass)

theorem InTime.lines {c : KConfig T M S} {d : QConfig T M S} {t : T} {l : KLabel M S}
    (hcd : ConfigRel Matches c d) (h : InTime t c l) : InTimeLines t d l := by
  obtain ⟨href, -⟩ := hcd.st
  intro ht
  have h' := h (href.inList_iff.mpr ht)
  cases l with
  | start a =>
    cases a with
    | timer =>
      have hlen : listCount c.st.readyList = ((d.st.line .ready).length : Int) :=
        href.ready.count
      simp only [Sched.sliceEndSwitches, href.curr, href.task, hlen] at h'
      simp only [Queues.sliceEndSwitches, Queues.sliceOver, beq_iff_eq]
      split at h' <;> (rename_i hc; simp only [hc, if_true, if_false] at h' ⊢; omega)
    | _ => trivial
  | resume =>
    simp only [hcd.pend, href.curr] at h'
    exact h'

/-- One step of the lines: a timer interrupt takes a tick from a sleeper, and nothing else
does. -/
theorem asleep_step {d d' : QConfig T M S} {t : T} {k : Int} {l : KLabel M S}
    (hinv : d.st.Inv) (h : Queues.Asleep t k d.st) (hl : InTimeLines t d l)
    (hstep : step queues d l = some d') :
    (l ≠ .start .timer → Queues.Asleep t k d'.st) ∧
    (l = .start .timer → k = 1 → t ∈ d'.st.line .ready) ∧
    (l = .start .timer → k ≠ 1 → Queues.Asleep t (k - 1) d'.st) := by
  rcases step_cases hstep with ⟨a, rfl, -, -, rfl⟩ | ⟨a, r, rfl, hp, rfl⟩
  · rw [Suspend.Config.settle_st]
    refine ⟨fun hne => h.start hinv fun he => hne (by rw [he]), ?_, ?_⟩
    · rintro he
      obtain rfl : a = .timer := by simpa using he
      exact (h.timer hinv (hl h.mem)).1
    · rintro he
      obtain rfl : a = .timer := by simpa using he
      exact (h.timer hinv (hl h.mem)).2
  · rw [Suspend.Config.settle_st]
    refine ⟨fun _ => ?_, by simp, by simp⟩
    -- A sleep pass that a switch has put off would take a tick outside a timer interrupt.
    cases r with
    | leave => exact h
    | sleepPass => exact absurd hp (hl h.mem a)

/-- As long as fewer timer interrupts than its ticks have arrived, a sleeper goes on
sleeping, and each of them has taken a tick. The induction is on the steps of the run. -/
theorem asleep_run (ls : List (KLabel M S)) :
    ∀ (d d' : QConfig T M S) (t : T) (k : Int), d.st.Inv → Queues.Asleep t k d.st →
      (∀ l ∈ ls, SleepFits l) → Meets queues (InTimeLines t) d ls → timers ls < k →
      run queues d ls = some d' → d'.st.Inv ∧ Queues.Asleep t (k - timers ls) d'.st := by
  induction ls with
  | nil =>
    intro d d' t k hinv h _ _ _ hrun
    obtain rfl : d = d' := Option.some.inj hrun
    exact ⟨hinv, by simpa [timers] using h⟩
  | cons l ls ih =>
    intro d d' t k hinv h hfit hmeets hk hrun
    obtain ⟨d₁, hstep, hrest⟩ := Option.bind_eq_some_iff.mp hrun
    have hinv₁ := Queues.inv_step hinv (hfit l (by simp)) hstep
    have hfit₁ : ∀ l ∈ ls, SleepFits l := fun l hl => hfit l (by simp [hl])
    obtain ⟨hother, -, htimer⟩ := asleep_step hinv h hmeets.1 hstep
    by_cases hl : l = .start .timer
    · have hcount : (timers (l :: ls) : Int) = timers ls + 1 := by simp [timers, hl]
      have h₁ := htimer hl (by omega)
      obtain ⟨hinv', h'⟩ := ih d₁ d' t (k - 1) hinv₁ h₁ hfit₁ (hmeets.2 d₁ hstep)
        (by omega) hrest
      refine ⟨hinv', ?_⟩
      rw [hcount]
      rwa [show k - 1 - (timers ls : Int) = k - (timers ls + 1) by omega] at h'
    · have hcount : timers (l :: ls) = timers ls := by
        unfold timers
        rw [List.count_cons_of_ne hl]
      rw [hcount] at hk ⊢
      exact ih d₁ d' t k hinv₁ (hother hl) hfit₁ (hmeets.2 d₁ hstep) hk hrest

/-- The two ways of rounding agree on a sleep that fits. -/
theorem sleepLength_eq {ms : Nat} (hms : ms ≤ 4294967286) : sleepLength ms = Queues.ticks ms := by
  unfold sleepLength Queues.ticks OS_TICK_MS
  split <;> omega

/-- A sleeper in the lines of a matching run sleeps in the kernel. -/
theorem Queues.Asleep.inList {c : KConfig T M S} {d : QConfig T M S} {t : T} {k : Int}
    (h : Queues.Asleep t k d.st) (hcd : ConfigRel Matches c d) :
    c.st.InList .sleep t ∧ ¬ c.st.InList .ready t := by
  obtain ⟨href, hinv⟩ := hcd.st
  rw [href.inList_iff, href.inList_iff]
  exact ⟨h.mem, fun hr => absurd (hinv.placed.disjoint _ _ t h.mem hr) (by simp)⟩

/-- The lines of a run that starts with a sleep: the caller sleeps for all its ticks. -/
theorem asleep_call {c c₁ : KConfig T M S} {ms : Nat} (hinv : SchedInv c.st)
    (hms : ms ≤ 4294967286) (hcall : step kernel c (.start (.msleep ms)) = some c₁) :
    ∃ d₁ : QConfig T M S, ConfigRel Matches c₁ d₁ ∧
      Queues.Asleep c.st.currTask (sleepLength ms) d₁.st := by
  obtain ⟨a, ha⟩ := schedInv_iff.mp hinv
  have hc : ConfigRel Matches c ⟨a, c.pend, c.hist⟩ := ⟨ha, rfl, rfl⟩
  obtain ⟨d₁, hd₁, hrel⟩ := kernel_simulates.step hc
    (show SleepFits (.start (.msleep ms)) from hms) hcall
  refine ⟨d₁, hrel, ?_⟩
  rcases step_cases hd₁ with ⟨b, hb, -, -, rfl⟩ | ⟨b, r, hb, -⟩
  · obtain rfl : .msleep ms = b := by simpa using hb
    rw [sleepLength_eq hms, ha.1.curr, Suspend.Config.settle_st]
    exact Queues.asleep_msleep a hms
  · simp at hb

/-- A sleep lasts for its ticks in every run that puts off none of them. -/
theorem sleep_lasts {c c₁ : KConfig T M S} {ms : Nat} {ls : List (KLabel M S)}
    (hinv : SchedInv c.st) (hms : ms ≤ 4294967286)
    (hcall : step kernel c (.start (.msleep ms)) = some c₁)
    (hfit : ∀ l ∈ ls, SleepFits l) (hintime : Meets kernel (InTime c.st.currTask) c₁ ls) :
    SleepLasts c₁ c.st.currTask (sleepLength ms) ls := by
  intro c' hrun
  obtain ⟨d₁, hrel₁, hasleep⟩ := asleep_call hinv hms hcall
  have hmeets : Meets queues (InTimeLines c.st.currTask) d₁ ls :=
    kernel_simulates.meets (fun _ _ _ hcd h => InTime.lines hcd h) hfit hrel₁ hrun hintime
  constructor
  · -- Before the last tick, the run ends in a sleep.
    intro hlt
    obtain ⟨d', hd', hrel'⟩ := kernel_simulates.run hfit hrel₁ hrun
    have h' := (asleep_run ls d₁ d' _ _ hrel₁.st.2 hasleep hfit hmeets (by omega) hd').2
    exact h'.inList hrel'
  · -- With the last tick, the step before it is the last one of the sleep.
    intro heq hlast
    obtain ⟨ls', rfl⟩ := List.getLast?_eq_some_iff.mp hlast
    have hcount : timers ls' + 1 = sleepLength ms := by
      rw [← heq]
      simp [timers]
    obtain ⟨c₂, hrun₂, hstep⟩ := run_concat hrun
    have hfit' : ∀ l ∈ ls', SleepFits l := fun l hl => hfit l (by simp [hl])
    obtain ⟨d₂, hd₂, hrel₂⟩ := kernel_simulates.run hfit' hrel₁ hrun₂
    obtain ⟨hinv₂, h₂⟩ := asleep_run ls' d₁ d₂ _ _ hrel₁.st.2 hasleep hfit' hmeets.left
      (by omega) hd₂
    obtain ⟨d', hd', hrel'⟩ := kernel_simulates.step hrel₂ (hfit _ (by simp)) hstep
    have hready := (asleep_step hinv₂ h₂ (hmeets.right hd₂).1 hd').2.1 rfl (by omega)
    exact hrel'.st.1.inList_iff.mpr hready

/-- A task that sleeps for one tick while the idle task runs. -/
theorem sleep_lasts_one_tick :
    ∃ c₁, step kernel (startConfig (readySched [1] 0 : Sched (Fin 2) Unit Unit))
        (.start (.msleep 7)) = some c₁ ∧ SleepLasts c₁ 1 1 [.start .timer] := by
  have hcall : (step kernel (startConfig (readySched [1] 0 : Sched (Fin 2) Unit Unit))
      (.start (.msleep 7))).map (fun c => decide c.st.sliceEndSwitches) = some false := by
    decide +kernel
  obtain ⟨c₁, hc₁, hslice⟩ := Option.map_eq_some_iff.mp hcall
  refine ⟨c₁, hc₁, ?_⟩
  exact sleep_lasts (readySched_inv (by decide) (by decide) 0) (by decide) hc₁ (by decide)
    ⟨fun _ => of_decide_eq_false hslice, fun _ _ => trivial⟩

/-- A member of a list is its first node or has a node in front of it. -/
theorem IsList.first_or_pre {N : Type} {heap : N → ListNode N} {list : ListT N} {xs : List N}
    {n : N} (h : IsList heap list xs) (hn : n ∈ xs) :
    list.first = some n ∨ (heap n).pre ≠ none := by
  obtain ⟨pre, post, rfl⟩ := List.append_of_mem hn
  rw [h.first, (h.linked.at).1]
  cases pre with
  | nil => exact Or.inl rfl
  | cons x xs => exact Or.inr (by simp)

/-- The sleep that comes too late. The first task sleeps for ten ticks, and the second one
runs through its slice of ten: the tenth interrupt switches to the third task in front of
the sleep pass, and the sleeper is not ready after it. -/
theorem sleep_late :
    ∃ (c c₁ : KConfig (Fin 4) Unit Unit) (ls : List (KLabel Unit Unit)),
      SchedInv c.st ∧ step kernel c (.start (.msleep 100)) = some c₁ ∧
      (∀ l ∈ ls, SleepFits l) ∧ ¬ SleepLasts c₁ c.st.currTask (sleepLength 100) ls := by
  have hrun : (run kernel (startConfig (readySched [1, 2, 3] 0 : Sched (Fin 4) Unit Unit))
      (.start (.msleep 100) :: List.replicate 10 (.start .timer))).map
        (fun c' => (c'.st.readyList.first, (c'.st.runNode 1).pre)) = some (some 3, none) := by
    decide +kernel
  obtain ⟨c', hc', hval⟩ := Option.map_eq_some_iff.mp hrun
  obtain ⟨c₁, hstep, hrest⟩ := Option.bind_eq_some_iff.mp hc'
  refine ⟨_, c₁, List.replicate 10 (.start .timer), readySched_inv (by decide) (by decide) 0,
    hstep, by decide, fun h => ?_⟩
  obtain ⟨xs, hxs, hm⟩ := (h c' hrest).2 (by decide) (by decide)
  obtain ⟨hfirst, hpre⟩ := Prod.mk.inj hval
  have hm' : (1 : Fin 4) ∈ xs := hm
  rcases IsList.first_or_pre hxs hm' with h₁ | h₁
  · rw [hfirst] at h₁
    exact absurd h₁ (by decide)
  · exact h₁ hpre

end StartKernel
