import StartKernel.Proofs.Scheduler
import StartKernel.Proofs.TssInit

/-!
# `StartKernel.Proofs.TaskStart`: a created task is queued twice

`task_init` puts the new task into the ready list, and `task_start` puts it there again. The
node of the task then points to itself.

* `listInsertLast_twice`: what inserting the last node of a list again leaves.
* `start_queues_twice`: after `task_init` and `task_start` the ready list describes no sequence,
  and `task_set_block` does not take the task out of it.
-/

set_option autoImplicit false

namespace StartKernel

open Function (update)

section List

variable {N : Type} {heap : N → ListNode N} {list : ListT N} {xs ys : List N}
  {n : N}

/-- Inserting the last node again: it becomes its own predecessor and its own successor. -/
theorem listInsertLast_twice [DecidableEq N] (h : IsList heap list (xs ++ [n])) :
    ((listInsertLast heap list n).1 n).pre = some n ∧
      ((listInsertLast heap list n).1 n).next = some n ∧
      (listInsertLast heap list n).2.last = some n ∧
      (listInsertLast heap list n).2.count = list.count + 1 := by
  have hlast : list.last = some n := by simp [h.last]
  have hempty : ¬ listIsEmpty list = true := by
    rw [h.isEmpty_iff]
    simp
  unfold listInsertLast
  rw [if_neg hempty]
  simp [hlast]

/-- A list whose last node has a successor describes no sequence. -/
theorem not_isList_of_next (hlast : list.last = some n) (hnext : (heap n).next = some n) :
    ¬ IsList heap list xs := by
  intro h
  have hget : xs.getLast? = some n := h.last.symm.trans hlast
  obtain ⟨ys, rfl⟩ := List.getLast?_eq_some_iff.mp hget
  have hnone : (heap n).next = none := (h.linked ys n [] rfl).2
  rw [hnext] at hnone
  cases hnone

/-- Removing a node that points to itself does not take it off the end of the list. -/
theorem listRemove_self_linked [DecidableEq N] (hlast : list.last = some n)
    (hpre : (heap n).pre = some n) : (listRemove heap list n).2.last = some n := by
  unfold listRemove
  simp [hlast, hpre]

end List

variable {T M S : Type} [DecidableEq T] {L : Layout} {k k' k₁ : Kernel T M S} {s s' : Sched T M S}
  {t : T} {q : List T} {r flag : Int} {entry esp : Nat}

/-! ### What `tss_init` leaves of the scheduler -/

omit [DecidableEq T] in
/-- The failure path of `tss_init` does not touch the scheduler. -/
theorem tssInitFailed_sched {tssSel : Int} {kernelStack : Nat}
    (he : tssInitFailed k tssSel kernelStack = some (r, k')) : k'.sched = k.sched := by
  unfold tssInitFailed at he
  split at he
  · obtain ⟨m, -, he⟩ := Option.map_eq_some_iff.mp he
    obtain ⟨-, rfl⟩ := Prod.mk.inj he
    rfl
  · obtain ⟨-, rfl⟩ := Prod.mk.inj (Option.some.inj he)
    rfl

/-- `tss_init` changes the record of its task and nothing else of the scheduler. -/
theorem tssInit_sched [HasTss T] (he : tssInit L k t flag entry esp = some (r, k')) :
    ∃ v, k'.sched = k.sched.setTask t v := by
  have hself : k.sched.setTask t (k.sched.task t) = k.sched := by simp [Sched.setTask]
  unfold tssInit at he
  dsimp only at he
  split at he
  · -- No descriptor.
    obtain ⟨-, rfl⟩ := Prod.mk.inj (Option.some.inj he)
    exact ⟨_, hself.symm⟩
  split at he
  · -- No kernel stack.
    exact ⟨_, tssInitFailed_sched he⟩
  split at he
  · -- No page directory.
    exact ⟨_, (tssInitFailed_sched he).trans (setTask_setTask _ _ _ _)⟩
  · obtain ⟨-, rfl⟩ := Prod.mk.inj (Option.some.inj he)
    exact ⟨_, (setTask_setTask _ _ _ _).trans ((setTask_setTask _ _ _ _).trans
      (setTask_setTask _ _ _ _))⟩

/-! ### The ready list -/

variable [HasIdle T]

/-- `task_set_ready` appends a task that is not ready yet. -/
theorem IsList.setReady (hq : IsList s.runNode s.readyList q) (ht : t ∉ q) (hi : t ≠ idleTask) :
    IsList (taskSetReady s t).runNode (taskSetReady s t).readyList (q ++ [t]) := by
  unfold taskSetReady
  rw [if_pos hi]
  exact hq.insertLast ht

/-- The part of `task_init` behind `tss_init` puts the task into the ready list. -/
theorem taskInitRest_ready (hq : IsList s.runNode s.readyList q) (ht : t ∉ q)
    (hi : t ≠ idleTask) :
    IsList (taskInitRest s t).runNode (taskInitRest s t).readyList (q ++ [t]) := by
  -- The node of the task is cleared first. It is not one of the nodes of the list.
  have hclear : IsList (update s.runNode t listNodeInit) s.readyList q := hq.congr fun x hx =>
    Function.update_of_ne (show x ≠ t from fun he => ht (he ▸ hx)) _ _
  unfold taskInitRest
  exact IsList.setReady (s := { s with
    task := update s.task t _, allNode := _, runNode := _, waitNode := _ }) hclear ht hi

/-- The task `t` was put behind the ready tasks `q`, and blocking it takes it out again. -/
structure QueuedOnce (s s' : Sched T M S) (q : List T) (t : T) : Prop where
  ready : IsList s'.runNode s'.readyList (q ++ [t])
  count : s'.readyList.count = s.readyList.count + 1
  block : IsList (taskSetBlock s' t).runNode (taskSetBlock s' t).readyList q

/-- `task_start` of a task that is already the last ready one. -/
theorem taskStart_twice (hready : IsList s.runNode s.readyList (q ++ [t])) (hi : t ≠ idleTask) :
    (∀ xs, ¬ IsList (taskStart s t).runNode (taskStart s t).readyList xs) ∧
      (taskStart s t).readyList.count = s.readyList.count + 1 ∧
      (taskSetBlock (taskStart s t) t).readyList.last = some t := by
  obtain ⟨hpre, hnext, hlast, hcount⟩ := listInsertLast_twice hready
  have hset : taskStart s t = { s with
      task := update s.task t { s.task t with state := .ready }
      runNode := (listInsertLast s.runNode s.readyList t).1
      readyList := (listInsertLast s.runNode s.readyList t).2 } := if_pos hi
  rw [hset]
  refine ⟨fun xs => not_isList_of_next hlast hnext, hcount, ?_⟩
  unfold taskSetBlock
  rw [if_pos hi]
  exact listRemove_self_linked hlast hpre

/-- A `task_init` whose `tss_init` ends puts the task into the ready list. -/
theorem taskInit_ready [HasTss T] (hq : IsList k.sched.runNode k.sched.readyList q) (ht : t ∉ q)
    (hi : t ≠ idleTask) (htss : tssInit L k t flag entry esp = some (r, k₁)) :
    taskInit L k t flag entry esp = some (0, { k₁ with sched := taskInitRest k₁.sched t }) ∧
      IsList (taskInitRest k₁.sched t).runNode (taskInitRest k₁.sched t).readyList (q ++ [t]) := by
  obtain ⟨v, hv⟩ := tssInit_sched htss
  have hq₁ : IsList k₁.sched.runNode k₁.sched.readyList q := by
    rw [hv]
    exact hq
  refine ⟨?_, taskInitRest_ready hq₁ ht hi⟩
  unfold taskInit
  rw [htss]
  rfl

/-- `task_init` and then `task_start`, for a task that is not ready and whose `tss_init`
succeeds. The task is queued twice: the ready list counts it twice and describes no sequence,
and the task stays the last one when it is blocked. -/
theorem start_queues_twice [HasTss T] (hq : IsList k.sched.runNode k.sched.readyList q)
    (ht : t ∉ q) (hi : t ≠ idleTask) (htss : tssInit L k t flag entry esp = some (0, k₁)) :
    ∃ k', taskInit L k t flag entry esp = some (0, k') ∧
      ¬ QueuedOnce k.sched (taskStart k'.sched t) q t ∧
      (∀ xs, ¬ IsList (taskStart k'.sched t).runNode (taskStart k'.sched t).readyList xs) ∧
      (taskStart k'.sched t).readyList.count = k.sched.readyList.count + 2 ∧
      (taskSetBlock (taskStart k'.sched t) t).readyList.last = some t := by
  obtain ⟨he, hready⟩ := taskInit_ready hq ht hi htss
  obtain ⟨hno, hcount, hblock⟩ := taskStart_twice hready hi
  refine ⟨_, he, fun honce => hno _ honce.ready, hno, ?_, hblock⟩
  rw [hcount, hready.count, hq.count]
  simp only [List.length_append, List.length_singleton]
  omega

/-- The tasks of the examples have task state segments of their own. -/
instance finTss (n : Nat) : HasTss (Fin (n + 1)) where
  tssAddr t := (0x20000 + 104 * t.val) % 2 ^ 32
  tssAddr_lt _ := Nat.mod_lt _ (by decide)

/-- A kernel without tasks and with a free descriptor table. The first of its frames is taken. -/
def bootKernel (frames : Nat) : Kernel (Fin 3) Unit Unit where
  sched := freshSched 0
  memory := oneSpace frames
  gdtTable _ := ⟨0, 0, 0, 0, 0⟩

/-- With two free frames, `tss_init` succeeds. -/
theorem bootKernel_tssInit : ∃ k₁, tssInit smallLayout (bootKernel 3) 1 0 0x80000000 0x8000A000
    = some (0, k₁) := by
  have hinv : MemInv smallLayout (bootKernel 3).memory [0x100000] [] :=
    oneSpace_inv (by decide) (by decide)
  have hroom : HasRoom (bootKernel 3) := ⟨⟨1, by decide, by decide, rfl⟩, by decide +kernel⟩
  rcases tssInit_cases hinv 1 0 0x80000000 0x8000A000 with ⟨k₁, _, _, _, he, -⟩ | ⟨_, -, -, hno⟩
  · exact ⟨k₁, he⟩
  · exact absurd hroom hno

/-- The first task that is created and started. -/
theorem start_queues_twice_first : ∃ k', taskInit smallLayout (bootKernel 3) 1 0 0x80000000
      0x8000A000 = some (0, k') ∧
    ¬ QueuedOnce (bootKernel 3).sched (taskStart k'.sched 1) [] 1 ∧
    (∀ xs, ¬ IsList (taskStart k'.sched 1).runNode (taskStart k'.sched 1).readyList xs) ∧
    (taskStart k'.sched 1).readyList.count = 2 ∧
    (taskSetBlock (taskStart k'.sched 1) 1).readyList.last = some 1 := by
  obtain ⟨k₁, htss⟩ := bootKernel_tssInit
  exact start_queues_twice (k := bootKernel 3) isList_init (by simp) (by decide) htss

/-- The ready list of the first task that is created and started is not one task longer. -/
theorem not_queuedOnce_first : ∃ k₁ k',
    tssInit smallLayout (bootKernel 3) 1 0 0x80000000 0x8000A000 = some (0, k₁) ∧
    taskInit smallLayout (bootKernel 3) 1 0 0x80000000 0x8000A000 = some (0, k') ∧
    IsList (bootKernel 3).sched.runNode (bootKernel 3).sched.readyList [] ∧
    ¬ QueuedOnce (bootKernel 3).sched (taskStart k'.sched 1) [] 1 := by
  obtain ⟨k₁, htss⟩ := bootKernel_tssInit
  have hempty : IsList (bootKernel 3).sched.runNode (bootKernel 3).sched.readyList [] := isList_init
  obtain ⟨he, hready⟩ := taskInit_ready hempty (by simp) (by decide) htss
  obtain ⟨hno, -, -⟩ := taskStart_twice hready (by decide)
  exact ⟨k₁, _, htss, he, hempty, fun honce => hno _ honce.ready⟩

end StartKernel
