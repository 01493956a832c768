import StartKernel.Proofs.TaskStart

/-!
# `StartKernel.Proofs.TaskInit`: the contexts of the ready tasks

`task_init` does not look at the result of `tss_init`. When a descriptor or a frame is missing,
it still puts the task into the ready list, and returns 0.

* `taskInit_step`: a call that finds room gives its task a context and keeps those of the others.
* `contexts_iff`: in a run of calls on new tasks, every call reports its failures, and all ready
  tasks have contexts, exactly when every call finds room.
-/

set_option autoImplicit false

namespace StartKernel

open Function (update)
open Trace (run Meets)

variable {T M S : Type} [DecidableEq T] [HasTss T] {L : Layout} {k k' k₁ : Kernel T M S}
  {s : Sched T M S} {t u : T} {q ts : List T} {live held : List Nat}

/-- The page of the kernel stack of a task. -/
def Kernel.stackPage (k : Kernel T M S) (t : T) : Nat := (k.sched.task t).tss.esp0 - memPageSize

/-- The task can run: its selector names the descriptor of its own `tss`, and it has a page
directory and a kernel stack. -/
structure HasContext (k : Kernel T M S) (live held : List Nat) (t : T) : Prop where
  sel : ∃ i, 1 ≤ i ∧ i < gdtTableSize ∧ (k.sched.task t).tssSel = i * segmentDescSize ∧
    IsTssDesc (k.gdtTable i) (tssAddr t)
  cr3 : (k.sched.task t).tss.cr3 ≠ 0
  dir : (k.sched.task t).tss.cr3 ∈ live
  esp0 : (k.sched.task t).tss.esp0 ≠ 0
  stack : k.stackPage t ∈ held

/-- The tasks of `q` have contexts, each with a kernel stack of its own. The page directories
and the kernel stacks are frames that the allocator handed out, for these uses only. -/
def ContextsOk (L : Layout) (k : Kernel T M S) (q : List T) : Prop :=
  ∃ live held, MemInv L k.memory live held ∧ (∀ t ∈ q, HasContext k live held t) ∧
    (q.map k.stackPage).Nodup

/-- The ready list is well formed, and its tasks have contexts. -/
def ReadyOk (L : Layout) (k : Kernel T M S) : Prop :=
  ∃ q, IsList k.sched.runNode k.sched.readyList q ∧ ContextsOk L k q

/-- The invariant between two calls of `task_init`. -/
structure InitInv (L : Layout) (k : Kernel T M S) : Prop where
  ready : ReadyOk L k
  tasks : ∃ ts, IsList k.sched.allNode k.sched.taskList ts

/-- The arguments of `task_init`. -/
structure InitCall (T : Type) where
  task : T
  flag : Int
  entry : Nat
  esp : Nat

/-- The task of the call is in neither list. -/
def NewTask (k : Kernel T M S) (c : InitCall T) : Prop :=
  (∀ q, IsList k.sched.runNode k.sched.readyList q → c.task ∉ q) ∧
    ∀ ts, IsList k.sched.allNode k.sched.taskList ts → c.task ∉ ts

variable [HasIdle T]

/-- One call of `task_init`. -/
def initStep (L : Layout) (k : Kernel T M S) (c : InitCall T) : Option (Kernel T M S) :=
  (taskInit L k c.task c.flag c.entry c.esp).map Prod.snd

/-- When `tss_init` fails, `task_init` returns an error and leaves both lists as they were. -/
def ReportsInit (L : Layout) (k : Kernel T M S) (c : InitCall T) : Prop :=
  ∀ r k' k₁, taskInit L k c.task c.flag c.entry c.esp = some (r, k') →
    tssInit L k c.task c.flag c.entry c.esp = some (-1, k₁) →
    r ≠ 0 ∧ (∀ q, IsList k.sched.runNode k.sched.readyList q →
        IsList k'.sched.runNode k'.sched.readyList q) ∧
      ∀ ts, IsList k.sched.allNode k.sched.taskList ts →
        IsList k'.sched.allNode k'.sched.taskList ts

/-! ### What `task_init` does behind `tss_init` -/

omit [HasTss T] in
@[simp] theorem taskSetReady_allNode (s : Sched T M S) (t : T) :
    (taskSetReady s t).allNode = s.allNode := by
  unfold taskSetReady
  split <;> rfl

omit [HasTss T] in
@[simp] theorem taskSetReady_taskList (s : Sched T M S) (t : T) :
    (taskSetReady s t).taskList = s.taskList := by
  unfold taskSetReady
  split <;> rfl

omit [HasTss T] in
/-- Getting ready does not change the record of another task. -/
theorem taskSetReady_task_other (s : Sched T M S) (hu : u ≠ t) :
    (taskSetReady s t).task u = s.task u := by
  unfold taskSetReady
  split
  · simp [Sched.setTask, hu]
  · rfl

omit [HasTss T] in
/-- Getting ready changes the state of a task only. -/
theorem taskSetReady_tss (s : Sched T M S) (t : T) :
    ((taskSetReady s t).task t).tss = (s.task t).tss ∧
      ((taskSetReady s t).task t).tssSel = (s.task t).tssSel := by
  unfold taskSetReady
  split
  · simp
  · exact ⟨rfl, rfl⟩

omit [HasTss T] in
/-- The record of another task is left alone. -/
theorem taskInitRest_task_other (s : Sched T M S) (hu : u ≠ t) :
    (taskInitRest s t).task u = s.task u := by
  unfold taskInitRest
  exact (taskSetReady_task_other _ hu).trans (Function.update_of_ne hu _ _)

omit [HasTss T] in
/-- The context that `tss_init` made is left alone. -/
theorem taskInitRest_tss (s : Sched T M S) (t : T) :
    ((taskInitRest s t).task t).tss = (s.task t).tss ∧
      ((taskInitRest s t).task t).tssSel = (s.task t).tssSel := by
  obtain ⟨htss, hsel⟩ := taskSetReady_tss { s.setTask t
    { s.task t with
      state := .created
      sleepTicks := 0
      timeTicks := taskTimeSliceDefault
      sliceTicks := taskTimeSliceDefault } with
    allNode := update s.allNode t listNodeInit
    runNode := update s.runNode t listNodeInit
    waitNode := update s.waitNode t listNodeInit } t
  unfold taskInitRest
  refine ⟨htss.trans ?_, hsel.trans ?_⟩
  · simp [Sched.setTask]
  · simp [Sched.setTask]

omit [HasTss T] [HasIdle T] in
/-- A list without the node `t` does not change when the node is cleared. -/
theorem IsList.clear {heap : T → ListNode T} {list : ListT T} (h : IsList heap list q)
    (ht : t ∉ q) : IsList (update heap t listNodeInit) list q :=
  h.congr fun x hx => Function.update_of_ne (show x ≠ t from fun he => ht (he ▸ hx)) _ _

omit [HasTss T] in
/-- The task joins the task list. -/
theorem taskInitRest_tasks (hts : IsList s.allNode s.taskList ts) (ht : t ∉ ts) :
    IsList (taskInitRest s t).allNode (taskInitRest s t).taskList (ts ++ [t]) := by
  unfold taskInitRest
  dsimp only
  rw [taskSetReady_allNode, taskSetReady_taskList]
  exact (hts.clear ht).insertLast ht

omit [HasTss T] in
/-- The idle task does not join the ready list. -/
theorem taskInitRest_ready_idle (hq : IsList s.runNode s.readyList q)
    (ht : (idleTask : T) ∉ q) :
    IsList (taskInitRest s idleTask).runNode (taskInitRest s idleTask).readyList q := by
  unfold taskInitRest taskSetReady
  simp only [ne_eq, not_true_eq_false, if_false]
  exact hq.clear ht

/-! ### One call -/

/-- The contexts after a successful `tss_init`. -/
theorem contexts_step {i p d : Nat} (h : ∀ u ∈ q, HasContext k live held u) (ht : t ∉ q)
    (hnd : (q.map k.stackPage).Nodup) (htaken : TssTaken L k t live held k₁ i p d)
    (hk' : k' = { k₁ with sched := taskInitRest k₁.sched t }) :
    (∀ u ∈ t :: q, HasContext k' (d :: live) (p :: held) u) ∧
      ((t :: q).map k'.stackPage).Nodup := by
  obtain ⟨v, hv, hesp0, hcr3, hsel⟩ := htaken.sched
  obtain ⟨desc, hgdt, hdesc⟩ := htaken.gdt
  have hother : ∀ u ∈ q, k'.sched.task u = k.sched.task u := by
    intro u hu
    have hne : u ≠ t := fun he => ht (he ▸ hu)
    rw [hk']
    show (taskInitRest k₁.sched t).task u = _
    rw [taskInitRest_task_other _ hne, hv]
    exact Function.update_of_ne hne _ _
  have hown : (k'.sched.task t).tss = v.tss ∧ (k'.sched.task t).tssSel = v.tssSel := by
    obtain ⟨htss, hsel'⟩ := taskInitRest_tss k₁.sched t
    rw [hk']
    show ((taskInitRest k₁.sched t).task t).tss = _ ∧ ((taskInitRest k₁.sched t).task t).tssSel = _
    rw [htss, hsel', hv, setTask_self]
    exact ⟨rfl, rfl⟩
  have hpage : k'.stackPage t = p := by
    unfold Kernel.stackPage
    rw [hown.1, hesp0]
    exact Nat.add_sub_cancel p memPageSize
  have hpages : ∀ u ∈ q, k'.stackPage u = k.stackPage u := by
    intro u hu
    unfold Kernel.stackPage
    rw [hother u hu]
  have htable : k'.gdtTable = update k.gdtTable i desc := by
    rw [hk']
    exact hgdt
  constructor
  · intro u hu
    rcases List.mem_cons.mp hu with rfl | hu
    · -- The new task has what `tss_init` took for it.
      have hdir := htaken.dir.above
      refine ⟨⟨i, htaken.low, htaken.high, hown.2.trans hsel, ?_⟩, ?_, ?_, ?_, ?_⟩
      · rw [htable, Function.update_self]
        exact hdesc
      · rw [hown.1, hcr3]
        omega
      · rw [hown.1, hcr3]
        exact List.mem_cons_self
      · rw [hown.1, hesp0]
        unfold memPageSize
        omega
      · rw [hpage]
        exact List.mem_cons_self
    · have hc := h u hu
      obtain ⟨j, hlow, hhigh, hj, hdescj⟩ := hc.sel
      -- Its descriptor is in use, so it is not the one that was free.
      have hne : j ≠ i := by
        rintro rfl
        have hattr := hdescj.attr
        rw [htaken.free] at hattr
        cases hattr
      refine ⟨⟨j, hlow, hhigh, ?_, ?_⟩, ?_, ?_, ?_, ?_⟩
      · rw [hother u hu]
        exact hj
      · rw [htable, Function.update_of_ne hne]
        exact hdescj
      · rw [hother u hu]
        exact hc.cr3
      · rw [hother u hu]
        exact List.mem_cons_of_mem _ hc.dir
      · rw [hother u hu]
        exact hc.esp0
      · rw [hpages u hu]
        exact List.mem_cons_of_mem _ hc.stack
  · have hfresh : p ∉ held := (List.nodup_cons.mp htaken.inv.heldNodup).1
    rw [List.map_cons, hpage, List.map_congr_left hpages]
    refine List.nodup_cons.mpr ⟨fun hp => ?_, hnd⟩
    obtain ⟨u, hu, hup⟩ := List.mem_map.mp hp
    exact hfresh (hup ▸ (h u hu).stack)

/-- A call that finds room keeps the invariant. -/
theorem taskInit_step {c : InitCall T} (h : InitInv L k) (hfresh : NewTask k c) (hroom : HasRoom k)
    (he : initStep L k c = some k') : InitInv L k' := by
  obtain ⟨⟨q, hq, live, held, hinv, hctx, hnd⟩, ts, hts⟩ := h
  have htq := hfresh.1 q hq
  rcases tssInit_cases hinv c.task c.flag c.entry c.esp with
    ⟨k₁, i, p, d, htss, htaken⟩ | ⟨_, -, -, hno⟩
  swap
  · exact absurd hroom hno
  have hk' : k' = { k₁ with sched := taskInitRest k₁.sched c.task } := by
    unfold initStep taskInit at he
    rw [htss] at he
    exact (Option.some.inj he).symm
  obtain ⟨v, hv, -⟩ := htaken.sched
  have hq₁ : IsList k₁.sched.runNode k₁.sched.readyList q := by
    rw [hv]
    exact hq
  have hts₁ : IsList k₁.sched.allNode k₁.sched.taskList ts := by
    rw [hv]
    exact hts
  obtain ⟨hctx', hnd'⟩ := contexts_step hctx htq hnd htaken hk'
  have hinv' : MemInv L k'.memory (d :: live) (p :: held) := by
    rw [hk']
    exact htaken.inv
  have htasks : IsList k'.sched.allNode k'.sched.taskList (ts ++ [c.task]) := by
    rw [hk']
    exact taskInitRest_tasks hts₁ (hfresh.2 ts hts)
  refine ⟨?_, _, htasks⟩
  by_cases hidle : c.task = idleTask
  · -- The idle task gets a context, but it is never ready.
    refine ⟨q, ?_, _, _, hinv', fun u hu => hctx' u (List.mem_cons_of_mem _ hu),
      (List.nodup_cons.mp hnd').2⟩
    rw [hk', hidle]
    exact taskInitRest_ready_idle hq₁ (hidle ▸ htq)
  · refine ⟨q ++ [c.task], ?_, _, _, hinv', fun u hu => hctx' u ?_, ?_⟩
    · rw [hk']
      exact taskInitRest_ready hq₁ htq hidle
    · simpa [or_comm] using hu
    · exact ((List.perm_append_singleton c.task q).map _).nodup_iff.mpr hnd'

/-- A call reports its failures exactly when it finds room, so that there is none. -/
theorem reportsInit_iff {c : InitCall T} (h : InitInv L k) :
    ReportsInit L k c ↔ HasRoom k := by
  obtain ⟨⟨q, hq, live, held, hinv, -⟩, -⟩ := h
  rcases tssInit_cases hinv c.task c.flag c.entry c.esp with
    ⟨k₁, i, p, d, htss, htaken⟩ | ⟨k₁, htss, -, hno⟩
  · have hfree : FreeDesc k.gdtTable := ⟨i, htaken.low, htaken.high, htaken.free⟩
    refine ⟨fun _ => ⟨hfree, by rw [htaken.count]; omega⟩, fun _ r k' k₂ _ hfail => ?_⟩
    rw [htss] at hfail
    cases hfail
  · refine ⟨fun hreports => ?_, fun hroom => absurd hroom hno⟩
    have hinit : taskInit L k c.task c.flag c.entry c.esp
        = some (0, { k₁ with sched := taskInitRest k₁.sched c.task }) := by
      unfold taskInit
      rw [htss]
      rfl
    exact absurd rfl (hreports _ _ _ hinit htss).1

/-! ### Runs -/

/-- The contexts of the ready tasks. From a state in which the lists are well formed and the
ready tasks have contexts, in a run of `task_init` on new tasks: every call reports its failures
and in every state reached all ready tasks have contexts, if and only if every call finds a free
descriptor and two free frames. -/
theorem contexts_iff {cs : List (InitCall T)} (h : InitInv L k)
    (hnew : Meets (initStep L) NewTask k cs) :
    (Meets (initStep L) (ReportsInit L) k cs ∧
      ∀ cs', cs' <+: cs → ∀ k', run (initStep L) k cs' = some k' → ReadyOk L k') ↔
    Meets (initStep L) (fun k _ => HasRoom k) k cs := by
  have hiff : Meets (initStep L) (ReportsInit L) k cs ↔
      Meets (initStep L) (fun k _ => HasRoom k) k cs :=
    Trace.meets_congr (I := InitInv L) (fun _ _ hI _ => reportsInit_iff hI)
      (fun _ _ _ hI hR hQ he => taskInit_step hI hR hQ he) h hnew
  constructor
  · intro hall
    exact hiff.mp hall.1
  · intro hroom
    refine ⟨hiff.mpr hroom, fun cs' hpre k' hrun => ?_⟩
    obtain ⟨rest, rfl⟩ := hpre
    have hinv : InitInv L k' := Trace.run_invariant (I := InitInv L)
      (fun _ _ _ hI hP he => taskInit_step hI hP.1 hP.2 he) h (hnew.left.and hroom.left) hrun
    exact hinv.ready

/-- The kernel of the examples before the first task. -/
theorem bootKernel_inv {frames : Nat} (h₁ : 1 ≤ frames) (h₂ : frames ≤ 32512) :
    InitInv smallLayout (bootKernel frames) where
  ready := ⟨[], isList_init, _, _, oneSpace_inv h₁ h₂, by simp, List.nodup_nil⟩
  tasks := ⟨[], isList_init⟩

/-- The first task of the examples. -/
def firstCall : InitCall (Fin 3) := ⟨1, 0, 0x80000000, 0x8000A000⟩

/-- The tasks of the examples are new. -/
theorem bootKernel_new (frames : Nat) : NewTask (bootKernel frames) firstCall := by
  refine ⟨fun q hq => ?_, fun ts hts => ?_⟩
  · obtain rfl : q = [] := hq.unique isList_init
    exact List.not_mem_nil
  · obtain rfl : ts = [] := hts.unique isList_init
    exact List.not_mem_nil

/-- The second task of the examples. -/
def secondCall : InitCall (Fin 3) := ⟨2, 0, 0x80001000, 0x8000C000⟩

/-- Behind the first task the second one is new, and there is room for it. -/
theorem bootKernel_second {k' : Kernel (Fin 3) Unit Unit}
    (he : initStep smallLayout (bootKernel 5) firstCall = some k') :
    NewTask k' secondCall ∧ HasRoom k' := by
  have hinv : MemInv smallLayout (bootKernel 5).memory [0x100000] [] :=
    oneSpace_inv (by decide) (by decide)
  have hfour : freeCount (bootKernel 5).memory.paddrAlloc = 4 := by decide +kernel
  rcases tssInit_cases hinv 1 0 0x80000000 0x8000A000 with
    ⟨k₁, i, p, d, htss, htaken⟩ | ⟨_, -, -, hno⟩
  swap
  · exact absurd ⟨⟨1, by decide, by decide, rfl⟩, by omega⟩ hno
  have hk' : k' = { k₁ with sched := taskInitRest k₁.sched 1 } := by
    have hstep : initStep smallLayout (bootKernel 5) firstCall
        = some { k₁ with sched := taskInitRest k₁.sched 1 } := by
      show (taskInit smallLayout (bootKernel 5) 1 0 0x80000000 0x8000A000).map Prod.snd = _
      unfold taskInit
      rw [htss]
      rfl
    exact Option.some.inj (he.symm.trans hstep)
  obtain ⟨v, hv, -⟩ := htaken.sched
  obtain ⟨desc, hgdt, -⟩ := htaken.gdt
  have hempty : IsList k₁.sched.runNode k₁.sched.readyList [] ∧
      IsList k₁.sched.allNode k₁.sched.taskList [] := by
    rw [hv]
    exact ⟨isList_init, isList_init⟩
  refine ⟨⟨fun q hq => ?_, fun ts hts => ?_⟩, ?_, ?_⟩
  · rw [hk'] at hq
    obtain rfl := hq.unique (taskInitRest_ready hempty.1 List.not_mem_nil (by decide))
    decide
  · rw [hk'] at hts
    obtain rfl := hts.unique (taskInitRest_tasks hempty.2 List.not_mem_nil)
    decide
  · -- The first task took one descriptor, so another one is free.
    have hother : ∀ j, j ≠ i → (k'.gdtTable j).attr = 0 := by
      intro j hj
      rw [hk']
      show (k₁.gdtTable j).attr = 0
      rw [hgdt, Function.update_of_ne hj]
      rfl
    by_cases hi : i = 1
    · exact ⟨2, by decide, by decide, hother 2 (by omega)⟩
    · exact ⟨1, by decide, by decide, hother 1 (Ne.symm hi)⟩
  · have hcount := htaken.count
    rw [hk']
    show 2 ≤ freeCount k₁.memory.paddrAlloc
    omega

/-- With four free frames, two tasks get contexts. -/
theorem contexts_two_tasks :
    (Meets (initStep smallLayout) (ReportsInit smallLayout) (bootKernel 5)
        [firstCall, secondCall] ∧
      ∀ cs', cs' <+: [firstCall, secondCall] → ∀ k',
        run (initStep smallLayout) (bootKernel 5) cs' = some k' → ReadyOk smallLayout k') ∧
    Meets (initStep smallLayout) (fun k _ => HasRoom k) (bootKernel 5)
      [firstCall, secondCall] := by
  have hroom : Meets (initStep smallLayout) (fun k _ => HasRoom k) (bootKernel 5)
      [firstCall, secondCall] :=
    ⟨⟨⟨1, by decide, by decide, rfl⟩, by decide +kernel⟩,
      fun _ he => ⟨(bootKernel_second he).2, fun _ _ => trivial⟩⟩
  have hnew : Meets (initStep smallLayout) NewTask (bootKernel 5) [firstCall, secondCall] :=
    ⟨bootKernel_new 5, fun _ he => ⟨(bootKernel_second he).1, fun _ _ => trivial⟩⟩
  exact ⟨(contexts_iff (bootKernel_inv (by decide) (by decide)) hnew).mpr hroom, hroom⟩

/-- Without a free frame, `task_init` returns 0 and puts the first task into the ready list. -/
theorem taskInit_without_frames : ∃ k' k₁,
    tssInit smallLayout (bootKernel 1) 1 0 0x80000000 0x8000A000 = some (-1, k₁) ∧
    taskInit smallLayout (bootKernel 1) 1 0 0x80000000 0x8000A000 = some (0, k') ∧
    IsList (bootKernel 1).sched.runNode (bootKernel 1).sched.readyList [] ∧
    IsList k'.sched.runNode k'.sched.readyList [1] ∧
    ¬ ReportsInit smallLayout (bootKernel 1) firstCall := by
  have hinv : MemInv smallLayout (bootKernel 1).memory [0x100000] [] :=
    oneSpace_inv (by decide) (by decide)
  have hnone : freeCount (bootKernel 1).memory.paddrAlloc = 0 := by decide +kernel
  rcases tssInit_cases hinv 1 0 0x80000000 0x8000A000 with
    ⟨k₁, i, p, d, htss, htaken⟩ | ⟨k₁, htss, -, -⟩
  · have hcount := htaken.count
    omega
  · have hempty : IsList (bootKernel 1).sched.runNode (bootKernel 1).sched.readyList [] :=
      isList_init
    obtain ⟨he, hready⟩ := taskInit_ready hempty (by simp) (by decide) htss
    exact ⟨_, k₁, htss, he, hempty, hready, fun hreports => (hreports _ _ _ he htss).1 rfl⟩

end StartKernel
