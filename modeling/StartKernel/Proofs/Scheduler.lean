import StartKernel.Proofs.Refine

/-!
# `StartKernel.Proofs.Scheduler`: the queue invariant of the scheduler

`SchedInv s` is the invariant of the scheduler's lists, said of the nodes and links of the
kernel state. Every task other than the idle one is in exactly one list, exactly once, the
headers and the links of each list describe one sequence in both directions, and the current
task is the idle task or the first ready one.

* `schedInv_iff`: the invariant holds exactly when the state refines some lines of tasks
  that keep theirs.
* `run_matches`: a run of the kernel is matched by a run of lines.
* `run_schedInv`: the operations of the kernel keep the invariant over every run, whatever
  is switched out in the middle.
* `readySched_inv`: the invariant of the state in which the tasks of a list have become
  ready. Every run of the examples starts there.
-/

set_option autoImplicit false
set_option linter.unusedSectionVars false

namespace StartKernel

open Suspend (run step step_cases Meets ConfigRel)
open Placement (Apart Placed)

variable {T M S : Type} [DecidableEq T] [HasIdle T] [DecidableEq M] [DecidableEq S]
  {s : Sched T M S} {a : Queues T M S} {c c' : KConfig T M S} {ls : List (KLabel M S)}

/-- The list `p` of the kernel state describes the sequence `xs`. -/
def Sched.Lists (s : Sched T M S) (p : Place M S) (xs : List T) : Prop :=
  match p with
  | .ready => IsList s.runNode s.readyList xs
  | .sleep => IsList s.runNode s.sleepList xs
  | .wait o => IsList s.waitNode (s.waitList o) xs

/-- The task is in the list `p`. -/
def Sched.InList (s : Sched T M S) (p : Place M S) (t : T) : Prop :=
  ∃ xs, s.Lists p xs ∧ t ∈ xs

/-- The invariant of the scheduler's lists. A list describes a sequence without repeats, so
a task that is in one list only is there once. `sleep_ticks` is a C `int`. -/
structure SchedInv (s : Sched T M S) : Prop where
  lists : ∀ p, ∃ xs, s.Lists p xs
  once : ∀ t, t ≠ idleTask → ∃! p, s.InList p t
  idle : ∀ p, ¬ s.InList p idleTask
  curr : s.currTask = idleTask ∨ s.readyList.first = some s.currTask
  asleep : ∀ t, s.InList .sleep t →
    1 ≤ (s.task t).sleepTicks ∧ (s.task t).sleepTicks < 2 ^ 31

/-- A list describes one sequence only. -/
theorem Sched.Lists.unique {p : Place M S} {xs ys : List T} (hx : s.Lists p xs)
    (hy : s.Lists p ys) : xs = ys := by
  cases p with
  | ready => exact IsList.unique hx hy
  | sleep => exact IsList.unique hx hy
  | wait o => exact IsList.unique hx hy

theorem Sched.Lists.nodup {p : Place M S} {xs : List T} (h : s.Lists p xs) : xs.Nodup := by
  cases p with
  | ready => exact IsList.nodup h
  | sleep => exact IsList.nodup h
  | wait o => exact IsList.nodup h

/-- The lists of the kernel describe the lines it refines. -/
theorem Refines.lists (h : Refines s a) (p : Place M S) : s.Lists p (a.line p) := by
  cases p with
  | ready => exact h.ready
  | sleep => exact h.sleep
  | wait o => exact h.wait o

theorem Refines.inList_iff (h : Refines s a) {p : Place M S} {t : T} :
    s.InList p t ↔ t ∈ a.line p := by
  constructor
  · rintro ⟨xs, hxs, ht⟩
    rwa [hxs.unique (h.lists p)] at ht
  · exact fun ht => ⟨_, h.lists p, ht⟩

/-- The lines that the lists of a kernel state describe, with its other data. -/
def Sched.toQueues (s : Sched T M S) (line : Place M S → List T) : Queues T M S where
  curr := s.currTask
  line := line
  task := s.task
  owner m := (s.mutex m).owner
  lockedCount m := (s.mutex m).lockedCount
  semCount x := (s.sem x).count

/-- The queue invariant holds exactly when the state refines lines that keep theirs. -/
theorem schedInv_iff : SchedInv s ↔ ∃ a, Matches s a := by
  constructor
  · -- The lines are those that the lists link.
    intro h
    choose line hline using h.lists
    have hmem : ∀ p t, s.InList p t ↔ t ∈ line p := by
      intro p t
      constructor
      · rintro ⟨xs, hxs, ht⟩
        rwa [hxs.unique (hline p)] at ht
      · exact fun ht => ⟨_, hline p, ht⟩
    have hne : ∀ p t, t ∈ line p → t ≠ idleTask := by
      rintro p t ht rfl
      exact h.idle p ((hmem p _).mpr ht)
    have hapart : Apart line := by
      refine ⟨fun p => (hline p).nodup, fun p q t hp hq => ?_⟩
      obtain ⟨r, -, hr⟩ := h.once t (hne p t hp)
      exact (hr p ((hmem p t).mpr hp)).trans (hr q ((hmem q t).mpr hq)).symm
    refine ⟨s.toQueues line, ⟨rfl, rfl, hline .ready, hline .sleep,
      fun m => hline (.wait (.mutex m)), fun x => hline (.wait (.sem x)), fun _ => rfl,
      fun _ => rfl, fun _ => rfl, hapart⟩, ⟨⟨hapart, fun t => ⟨fun ht => ?_, ?_⟩⟩, ?_⟩, ?_⟩
    · obtain ⟨p, hp, -⟩ := h.once t ht
      exact ⟨p, (hmem p t).mp hp⟩
    · rintro ⟨p, hp⟩
      exact hne p t hp
    · exact fun t ht => h.asleep t ((hmem .sleep t).mpr ht)
    · have hfirst : s.readyList.first = (line .ready).head? := IsList.first (hline .ready)
      exact h.curr.imp_right fun hf => hfirst.symm.trans hf
  · rintro ⟨a, h, hinv⟩
    refine ⟨fun p => ⟨_, h.lists p⟩, fun t ht => ?_, fun p hp => ?_, ?_, fun t ht => ?_⟩
    · simp only [h.inList_iff]
      exact hinv.placed.existsUnique ht
    · exact hinv.ne_idle (h.inList_iff.mp hp) rfl
    · rw [h.curr, h.ready.first]
      exact hinv.curr
    · rw [h.task]
      exact hinv.asleep t (h.inList_iff.mp ht)

/-- One step of the lines keeps their invariant. -/
theorem Queues.inv_step {d d' : QConfig T M S} {l : KLabel M S} (hinv : d.st.Inv)
    (hfit : SleepFits l) (hstep : step queues d l = some d') : d'.st.Inv := by
  rcases step_cases hstep with ⟨a, rfl, -, hmay, rfl⟩ | ⟨a, r, rfl, -, rfl⟩
  · rw [Suspend.Config.settle_st]
    exact hinv.start hfit hmay
  · rw [Suspend.Config.settle_st]
    exact hinv.resume r

/-- A run of the kernel from a well-formed state is matched by a run of lines, with the same
rests and the same history. -/
theorem run_matches (hc : Matches c.st a) (hfit : ∀ l ∈ ls, SleepFits l)
    (hrun : run kernel c ls = some c') :
    ∃ d, run queues { st := a, pend := c.pend, hist := c.hist } ls = some d ∧
      ConfigRel Matches c' d :=
  kernel_simulates.run hfit ⟨hc, rfl, rfl⟩ hrun

/-- One step of the kernel keeps the queue invariant. -/
theorem step_schedInv {l : KLabel M S} (hinv : SchedInv c.st) (hfit : SleepFits l)
    (hstep : step kernel c l = some c') : SchedInv c'.st := by
  obtain ⟨a, ha⟩ := schedInv_iff.mp hinv
  have hc : ConfigRel Matches c { st := a, pend := c.pend, hist := c.hist } := ⟨ha, rfl, rfl⟩
  obtain ⟨d, -, hd⟩ := kernel_simulates.step hc hfit hstep
  exact schedInv_iff.mpr ⟨d.st, hd.st⟩

/-- Every run of the scheduler's operations keeps the queue invariant. The run starts in
any state that satisfies it, with any operations switched out. -/
theorem run_schedInv (hinv : SchedInv c.st) (hfit : ∀ l ∈ ls, SleepFits l)
    (hrun : run kernel c ls = some c') : SchedInv c'.st := by
  obtain ⟨a, ha⟩ := schedInv_iff.mp hinv
  obtain ⟨d, -, hd⟩ := run_matches ha hfit hrun
  exact schedInv_iff.mpr ⟨d.st, hd.st⟩

/-! ### States to start from -/

/-- The record of a new task, with the default slice of 10 ticks. -/
def newTask : TaskT where
  state := .created
  heapStart := 0
  heapEnd := 0
  sleepTicks := 0
  timeTicks := 10
  sliceTicks := 10
  tss := ⟨0, 0, 0, 0, 0, 0, 0, 0, 0, 0, 0, 0, 0⟩
  tssSel := 0

/-- The state before the first task: empty lists, free mutexes, and semaphores with
`tokens` tokens. -/
def freshSched (tokens : Int) : Sched T M S where
  currTask := idleTask
  readyList := listInit
  taskList := listInit
  sleepList := listInit
  task _ := newTask
  runNode _ := listNodeInit
  waitNode _ := listNodeInit
  allNode _ := listNodeInit
  mutex _ := mutexInit
  sem _ := semInit tokens
  appCodeSel := 0
  appDataSel := 0
  sysTick := 0

/-- The tasks of `ts` have become ready in this order, and the first one runs. -/
def readySched (ts : List T) (tokens : Int) : Sched T M S :=
  (taskDispatch (ts.foldl taskSetReady (freshSched tokens))).1

/-- The lines of a state before the first task. -/
theorem freshSched_refines (tokens : Int) :
    Refines (freshSched tokens : Sched T M S) ((freshSched tokens).toQueues fun _ => []) :=
  ⟨rfl, rfl, isList_init, isList_init, fun _ => isList_init, fun _ => isList_init,
    fun _ => rfl, fun _ => rfl, fun _ => rfl,
    ⟨fun _ => List.nodup_nil, fun _ _ _ h => absurd h List.not_mem_nil⟩⟩

/-- Tasks that stand nowhere become ready one after the other. -/
theorem Refines.foldl_setReady (ts : List T) :
    ∀ (s : Sched T M S) (a : Queues T M S), Refines s a → ts.Nodup → idleTask ∉ ts →
      (∀ t ∈ ts, ∀ p, t ∉ a.line p) →
      ∃ b, Refines (ts.foldl taskSetReady s) b ∧ b.line .ready = a.line .ready ++ ts ∧
        ∀ p, p ≠ .ready → b.line p = a.line p := by
  induction ts with
  | nil => exact fun s a h _ _ _ => ⟨a, h, by simp, fun _ _ => rfl⟩
  | cons t ts ih =>
    intro s a h hnd hidle hnot
    obtain ⟨htn, hts⟩ := List.nodup_cons.mp hnd
    have hi : t ≠ idleTask := fun he => hidle (by simp [he])
    have h₁ := h.setReady (t := t) fun _ => hnot t (by simp)
    obtain ⟨b, hb, hready, hother⟩ := ih _ _ h₁ hts (fun hm => hidle (by simp [hm])) (by
      intro u hu p
      rw [Queues.ready_line hi, Placement.mem_put]
      rintro (hp | ⟨-, rfl⟩)
      · exact hnot u (by simp [hu]) p hp
      · exact htn hu)
    refine ⟨b, hb, ?_, fun p hp => ?_⟩
    · rw [hready, Queues.ready_line hi]
      simp
    · rw [hother p hp, Queues.ready_line hi]
      simp [hp]

/-- The lines when all tasks have become ready, in front of the first dispatch. -/
theorem foldl_setReady_refines {ts : List T} (hnd : ts.Nodup)
    (hts : ∀ t, t ∈ ts ↔ t ≠ idleTask) (tokens : Int) :
    ∃ b : Queues T M S, Refines (ts.foldl taskSetReady (freshSched tokens)) b ∧ b.Steady ∧
      b.line .ready = ts := by
  have hfresh : Refines (freshSched tokens : Sched T M S) _ := freshSched_refines tokens
  obtain ⟨b, hb, hready, hother⟩ := hfresh.foldl_setReady ts _ _ hnd
    (fun h => (hts _).mp h rfl) (fun _ _ _ => List.not_mem_nil)
  replace hready : b.line .ready = ts := hready
  replace hother : ∀ p, p ≠ .ready → b.line p = [] := hother
  have hsleep : b.line .sleep = [] := hother .sleep (by simp)
  refine ⟨b, hb, ⟨⟨hb.apart, fun t => ⟨fun ht => ⟨.ready, ?_⟩, ?_⟩⟩, by simp [hsleep]⟩, hready⟩
  · rw [hready]
    exact (hts t).mpr ht
  · rintro ⟨p, hp⟩
    by_cases hpr : p = .ready
    · subst hpr
      rw [hready] at hp
      exact (hts t).mp hp
    · rw [hother p hpr] at hp
      exact absurd hp List.not_mem_nil

/-- The queue invariant holds when all tasks are ready. -/
theorem readySched_inv {ts : List T} (hnd : ts.Nodup)
    (hts : ∀ t, t ∈ ts ↔ t ≠ idleTask) (tokens : Int) :
    SchedInv (readySched ts tokens : Sched T M S) := by
  obtain ⟨b, hb, hsteady, -⟩ := foldl_setReady_refines (M := M) (S := S) hnd hts tokens
  exact schedInv_iff.mpr ⟨_, hb.dispatch.1, hsteady.dispatch⟩

/-- The idle task of the examples, which number their tasks. -/
instance finIdle (n : Nat) : HasIdle (Fin (n + 1)) := ⟨0⟩

/-- The numerals for three tasks. -/
instance threeNeZero : NeZero 3 := ⟨by decide⟩

/-- A run of the kernel starts with nothing switched out and no history. -/
def startConfig (s : Sched T M S) : KConfig T M S where
  st := s
  pend _ := none
  hist := []

/-- Two tasks sleep, wait and are ticked, with an operation switched out in the middle. -/
theorem run_schedInv_two_tasks :
    ∃ c', run kernel (startConfig (readySched [1, 2] 0 : Sched (Fin 3) Unit Unit))
        [.start (.mutexLock ()), .start (.msleep 25), .start (.mutexLock ()), .start .timer,
          .start .timer, .start .timer, .resume, .start (.mutexUnlock ())] = some c' ∧
      SchedInv c'.st := by
  have hrun : (run kernel (startConfig (readySched [1, 2] 0 : Sched (Fin 3) Unit Unit))
      [.start (.mutexLock ()), .start (.msleep 25), .start (.mutexLock ()), .start .timer,
        .start .timer, .start .timer, .resume, .start (.mutexUnlock ())]).isSome := by
    decide +kernel
  obtain ⟨c', hc'⟩ := Option.isSome_iff_exists.mp hrun
  exact ⟨c', hc', run_schedInv (readySched_inv (by decide) (by decide) 0) (by decide) hc'⟩

end StartKernel
