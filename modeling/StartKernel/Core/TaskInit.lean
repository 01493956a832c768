import StartKernel.Core.Memory
import StartKernel.Core.Task
import StartKernel.Cpu.Gdt

/-!
# `StartKernel.Core.TaskInit`: creating and starting a task (`core/task.c`)

`task_init` fills in a task record: `tss_init` takes a descriptor, a kernel stack and a page
directory for it, and then the task is put into the ready list and the task list. `task_start`
puts a task into the ready list. `task_manager_init` takes two descriptors before the first task.

A task record is a static object, so its `tss` has a fixed address (`HasTss`). The name of the
task and the log output are left out. A function that can stop the kernel, at an `ASSERT`, gives
nothing in that case.
-/

set_option autoImplicit false

namespace StartKernel

open Function (update)

/-- `TASK_TIME_SLICE_DEFAULT`. -/
def taskTimeSliceDefault : Int := 10

/-- `TASK_FLAG_SYSTEM`. -/
def taskFlagSystem : Nat := 1 <<< 0

/-- `sizeof(tss_t)`: 26 words. -/
def tssSize : Nat := 26 * 4

/-- The address `&task->tss`, a 32-bit pointer. -/
class HasTss (T : Type) where
  tssAddr : T → Nat
  tssAddr_lt : ∀ t, tssAddr t < 2 ^ 32

export HasTss (tssAddr)

/-- The scheduler, the memory and the descriptor table. -/
structure Kernel (T M S : Type) where
  sched : Sched T M S
  memory : MemState
  gdtTable : Gdt

/-- The `tss` of a task that `kernel_memset` has cleared. -/
def TssT.zero : TssT := ⟨0, 0, 0, 0, 0, 0, 0, 0, 0, 0, 0, 0, 0⟩

variable {T M S : Type} [DecidableEq T]

/-- The store of fields of the `tss` of one task. -/
def Kernel.setTss (k : Kernel T M S) (task : T) (v : TssT) : Kernel T M S :=
  { k with sched := k.sched.setTask task { k.sched.task task with tss := v } }

/-- `current_page_dir` of `core/memory.c`. -/
def currPageDir (s : Sched T M S) : Nat := (s.task (taskCurrent s)).tss.cr3

/-- The code at the label `tss_init_failed`. -/
def tssInitFailed (k : Kernel T M S) (tssSel : Int) (kernelStack : Nat) :
    Option (Int × Kernel T M S) :=
  let k := { k with gdtTable := gdtFreeSel k.gdtTable tssSel }
  if kernelStack ≠ 0 then
    (memoryFreePage (currPageDir k.sched) k.memory kernelStack).map fun memory =>
      (-1, { k with memory })
  else some (-1, k)

/-- The fields that `tss_init` fills in between the allocation of the kernel stack and that of
the page directory. -/
def tssFields (s : Sched T M S) (tss : TssT) (flag : Int) (entry esp kernelStack : Nat) : TssT :=
  let system := toU32 flag &&& taskFlagSystem ≠ 0
  let codeSel := if system then kernelSelectorCs else toU32 s.appCodeSel ||| segCpl3
  let dataSel := if system then kernelSelectorDs else toU32 s.appDataSel ||| segCpl3
  { tss with
    eip := entry
    esp := esp
    esp0 := toU32 (kernelStack + memPageSize)
    ss0 := kernelSelectorDs
    eflags := eflagsDefault ||| eflagsIf
    es := dataSel
    ss := dataSel
    ds := dataSel
    fs := dataSel
    gs := dataSel
    cs := codeSel
    iomap := 0 }

/-- `tss_init`. -/
def tssInit (L : Layout) [HasTss T] (k : Kernel T M S) (task : T) (flag : Int)
    (entry esp : Nat) : Option (Int × Kernel T M S) :=
  let (tssSel, gdtTable) := gdtAllocDesc k.gdtTable
  let k := { k with gdtTable }
  if tssSel < 0 then some (-1, k)
  else
    let k := { k with
      gdtTable := segmentDescSet k.gdtTable tssSel (tssAddr task) tssSize
        (segPPresent ||| segDpl0 ||| segTypeTss) }
    let k := k.setTss task .zero
    let (kernelStack, memory) := memoryAllocPage k.memory
    let k := { k with memory }
    if kernelStack = 0 then tssInitFailed k tssSel kernelStack
    else
      let k := k.setTss task
        (tssFields k.sched (k.sched.task task).tss flag entry esp kernelStack)
      let (pageDir, memory) := memoryCreateUvm L k.memory
      let k := { k with memory }
      if pageDir = 0 then tssInitFailed k tssSel kernelStack
      else
        let k := k.setTss task { (k.sched.task task).tss with cr3 := pageDir }
        -- `tss_sel` is a `uint16_t`.
        let tssSel := toU32 tssSel % 2 ^ 16
        some (0, { k with
          sched := k.sched.setTask task { k.sched.task task with tssSel } })

omit [DecidableEq T] in
/-- The part of `task_manager_init` that takes the descriptors of the applications' segments. -/
def appSegments (k : Kernel T M S) : Kernel T M S :=
  let (sel, gdtTable) := gdtAllocDesc k.gdtTable
  let gdtTable := segmentDescSet gdtTable sel 0x00000000 0xFFFFFFFF
    (segPPresent ||| segDpl3 ||| segSNormal ||| segTypeData ||| segTypeRw ||| segD)
  let k := { k with gdtTable, sched := { k.sched with appDataSel := sel } }
  let (sel, gdtTable) := gdtAllocDesc k.gdtTable
  let gdtTable := segmentDescSet gdtTable sel 0x00000000 0xFFFFFFFF
    (segPPresent ||| segDpl3 ||| segSNormal ||| segTypeCode ||| segTypeRw ||| segD)
  { k with gdtTable, sched := { k.sched with appCodeSel := sel } }

variable [HasIdle T]

/-- The part of `task_init` behind `tss_init`. -/
def taskInitRest (s : Sched T M S) (task : T) : Sched T M S :=
  let s := s.setTask task
    { s.task task with
      state := .created
      sleepTicks := 0
      timeTicks := taskTimeSliceDefault
      sliceTicks := taskTimeSliceDefault }
  let s := { s with
    allNode := update s.allNode task listNodeInit
    runNode := update s.runNode task listNodeInit
    waitNode := update s.waitNode task listNodeInit }
  let s := taskSetReady s task
  let r := listInsertLast s.allNode s.taskList task
  { s with allNode := r.1, taskList := r.2 }

/-- `task_init`. It drops the result of `tss_init`, and always returns 0. -/
def taskInit (L : Layout) [HasTss T] (k : Kernel T M S) (task : T) (flag : Int)
    (entry esp : Nat) : Option (Int × Kernel T M S) :=
  (tssInit L k task flag entry esp).map fun r =>
    (0, { r.2 with sched := taskInitRest r.2.sched task })

/-- `task_start`. -/
def taskStart (s : Sched T M S) (task : T) : Sched T M S := taskSetReady s task

end StartKernel
