import Mathlib.Logic.Function.Basic
import StartKernel.Comm.Types

/-!
# `StartKernel.Cpu.Gdt`: the descriptor table of `cpu/cpu.c`

A descriptor of the table is taken when its `attr` is not zero. `gdt_alloc_desc` takes the
first free one, and `segment_desc_set` fills it in. `init_gdt` writes the kernel's segments and
the call gate. A gate has another layout: it is written into the eight bytes of a descriptor
(`SegmentDesc.word`).

`gdt_table` has 256 entries. The other entries of a `Gdt` stand for the memory behind the
table, where `segment_desc_set` writes when it gets the selector -1. The mutex around the table
is left out: each function is one step.
-/

set_option autoImplicit false

namespace StartKernel

open Function (update)

/-- `GDT_TABLE_SIZE`. -/
def gdtTableSize : Nat := 256

/-- `KERNEL_SELECTOR_CS`. -/
def kernelSelectorCs : Nat := 1 * 8

/-- `KERNEL_SELECTOR_DS`. -/
def kernelSelectorDs : Nat := 2 * 8

/-- `SELECTOR_SYSCALL`. -/
def selectorSyscall : Nat := 3 * 8

/-- `SYSCALL_PARAM_COUNT`. -/
def syscallParamCount : Nat := 5

/-- `SEG_G`. -/
def segG : Nat := 1 <<< 15

/-- `SEG_D`. -/
def segD : Nat := 1 <<< 14

/-- `SEG_P_PRESENT`. -/
def segPPresent : Nat := 1 <<< 7

/-- `SEG_DPL0`. -/
def segDpl0 : Nat := 0 <<< 5

/-- `SEG_DPL3`. -/
def segDpl3 : Nat := 3 <<< 5

/-- `SEG_S_NORMAL`. -/
def segSNormal : Nat := 1 <<< 4

/-- `SEG_TYPE_CODE`. -/
def segTypeCode : Nat := 1 <<< 3

/-- `SEG_TYPE_DATA`. -/
def segTypeData : Nat := 0 <<< 3

/-- `SEG_TYPE_RW`. -/
def segTypeRw : Nat := 1 <<< 1

/-- `SEG_TYPE_TSS`. -/
def segTypeTss : Nat := 9 <<< 0

/-- `GATE_TYPE_SYSCALL`. -/
def gateTypeSyscall : Nat := 0xC <<< 8

/-- `GATE_P_PRESENT`. -/
def gatePPresent : Nat := 1 <<< 15

/-- `GATE_DPL3`. -/
def gateDpl3 : Nat := 3 <<< 13

/-- `SEG_CPL3`. -/
def segCpl3 : Nat := 3 <<< 0

/-- `EFLAGS_IF`. -/
def eflagsIf : Nat := 1 <<< 9

/-- `EFLAGS_DEFAULT`. -/
def eflagsDefault : Nat := 1 <<< 1

/-- `segment_desc_t`. -/
structure SegmentDesc where
  limit15_0 : Nat
  base15_0 : Nat
  base23_16 : Nat
  attr : Nat
  base31_24 : Nat
  deriving DecidableEq, Repr

/-- `sizeof(segment_desc_t)`. -/
def segmentDescSize : Nat := 8

/-- `gdt_table`. -/
abbrev Gdt := Nat → SegmentDesc

/-- The index `selector / sizeof(segment_desc_t)`, a division of unsigned numbers. -/
def selIndex (selector : Int) : Nat := toU32 selector / segmentDescSize

/-- `segment_desc_set`. -/
def segmentDescSet (gdt : Gdt) (selector : Int) (base limit attr : Nat) : Gdt :=
  -- A limit of more than 20 bits counts pages.
  let (attr, limit) := if limit > 0xFFFFF then (attr ||| 0x8000, limit / 0x1000)
    else (attr, limit)
  update gdt (selIndex selector)
    { limit15_0 := limit &&& 0xFFFF
      base15_0 := base &&& 0xFFFF
      base23_16 := (base >>> 16) &&& 0xFF
      attr := attr ||| (((limit >>> 16) &&& 0xF) <<< 8)
      base31_24 := (base >>> 24) &&& 0xFF }

/-- The loop of `gdt_alloc_desc`, over `n` entries from the index `i` on: the index at which it
stops. -/
def gdtScan (gdt : Gdt) (i : Nat) : Nat → Nat
  | 0 => i
  | n + 1 => if (gdt i).attr = 0 then i else gdtScan gdt (i + 1) n

/-- `gdt_alloc_desc`. The entry 0 is never handed out. -/
def gdtAllocDesc (gdt : Gdt) : Int × Gdt :=
  let i := gdtScan gdt 1 (gdtTableSize - 1)
  if i ≥ gdtTableSize then (-1, gdt)
  else (i * segmentDescSize, update gdt i { gdt i with attr := segPPresent })

/-- `gdt_free_sel`. Only the `attr` is cleared. -/
def gdtFreeSel (gdt : Gdt) (sel : Int) : Gdt :=
  update gdt (selIndex sel) { gdt (selIndex sel) with attr := 0 }

/-- The base address that the processor reads from the three pieces of a descriptor. -/
def SegmentDesc.base (d : SegmentDesc) : Nat :=
  d.base15_0 + 2 ^ 16 * d.base23_16 + 2 ^ 24 * d.base31_24

/-- The 20 bits of the limit. -/
def SegmentDesc.limit20 (d : SegmentDesc) : Nat :=
  d.limit15_0 + 2 ^ 16 * ((d.attr >>> 8) &&& 0xF)

/-- The G bit: the limit counts pages. -/
def SegmentDesc.granular (d : SegmentDesc) : Bool := d.attr.testBit 15

/-- The limit that the processor reads, in bytes. -/
def SegmentDesc.limit (d : SegmentDesc) : Nat :=
  if d.granular then (d.limit20 <<< 12) ||| 0xFFF else d.limit20

/-- The eight bytes of a descriptor as one little-endian number. -/
def SegmentDesc.word (d : SegmentDesc) : Nat :=
  d.limit15_0 + 2 ^ 16 * d.base15_0 + 2 ^ 32 * d.base23_16 + 2 ^ 40 * d.attr + 2 ^ 56 * d.base31_24

/-- The descriptor with the eight bytes `w`. -/
def SegmentDesc.ofWord (w : Nat) : SegmentDesc where
  limit15_0 := w % 2 ^ 16
  base15_0 := w / 2 ^ 16 % 2 ^ 16
  base23_16 := w / 2 ^ 32 % 2 ^ 8
  attr := w / 2 ^ 40 % 2 ^ 16
  base31_24 := w / 2 ^ 56 % 2 ^ 8

/-- `gate_desc_t`. -/
structure GateDesc where
  offset15_0 : Nat
  selector : Nat
  attr : Nat
  offset31_16 : Nat

/-- The eight bytes of a gate as one little-endian number. -/
def GateDesc.word (g : GateDesc) : Nat :=
  g.offset15_0 + 2 ^ 16 * g.selector + 2 ^ 32 * g.attr + 2 ^ 48 * g.offset31_16

/-- `gate_desc_set`, into the entry `desc` of the table. -/
def gateDescSet (gdt : Gdt) (desc selector offset attr : Nat) : Gdt :=
  update gdt desc (SegmentDesc.ofWord (GateDesc.word
    { offset15_0 := offset &&& 0xFFFF
      selector := selector
      attr := attr
      offset31_16 := (offset >>> 16) &&& 0xFFFF }))

/-- The loop of `init_gdt`, over `n` entries from the index `i` on. -/
def clearGdt (gdt : Gdt) (i : Nat) : Nat → Gdt
  | 0 => gdt
  | n + 1 => clearGdt (segmentDescSet gdt ((i <<< 3 : Nat) : Int) 0 0 0) (i + 1) n

/-- `init_gdt`. The address of `exception_handler_syscall` is a parameter. -/
def initGdt (gdt : Gdt) (exceptionHandlerSyscall : Nat) : Gdt :=
  let gdt := clearGdt gdt 0 gdtTableSize
  let gdt := segmentDescSet gdt kernelSelectorDs 0x00000000 0xFFFFFFFF
    (segPPresent ||| segDpl0 ||| segSNormal ||| segTypeData ||| segTypeRw ||| segD ||| segG)
  let gdt := segmentDescSet gdt kernelSelectorCs 0x00000000 0xFFFFFFFF
    (segPPresent ||| segDpl0 ||| segSNormal ||| segTypeCode ||| segTypeRw ||| segD ||| segG)
  gateDescSet gdt (selectorSyscall >>> 3) kernelSelectorCs exceptionHandlerSyscall
    (gatePPresent ||| gateDpl3 ||| gateTypeSyscall ||| syscallParamCount)

/-- `cpu_init`. -/
def cpuInit (gdt : Gdt) (exceptionHandlerSyscall : Nat) : Gdt := initGdt gdt exceptionHandlerSyscall

end StartKernel
