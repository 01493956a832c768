import StartKernel.Core.TaskInit
import StartKernel.Lib.Words

/-!
# `StartKernel.Cpu.TaskSwitch`: the task switch of the processor

`switch_to_tss` is a far jump to the descriptor of a TSS. The processor saves its registers into the
TSS that its task register names, and loads them from the new one. It checks the descriptor and
the segment selectors first. Where a check fails it raises an exception, and there is no new
state here.

A TSS is 26 words. The words 8 to 23 are the registers, and the word 7 is `cr3`, which is loaded but
never saved.
-/

set_option autoImplicit false

namespace StartKernel

open ByteMem (Mem load32 loadWords storeWords)
open Function (update)

/-- The registers that the processor saves in a TSS, in their order there. -/
structure Regs where
  eip : Nat
  eflags : Nat
  eax : Nat
  ecx : Nat
  edx : Nat
  ebx : Nat
  esp : Nat
  ebp : Nat
  esi : Nat
  edi : Nat
  es : Nat
  cs : Nat
  ss : Nat
  ds : Nat
  fs : Nat
  gs : Nat
  deriving DecidableEq, Repr

/-- The words 8 to 23 of a TSS. -/
def Regs.words (r : Regs) : List Nat :=
  [r.eip, r.eflags, r.eax, r.ecx, r.edx, r.ebx, r.esp, r.ebp, r.esi, r.edi, r.es, r.cs, r.ss, r.ds,
    r.fs, r.gs]

/-- The registers with the words `ws`. -/
def Regs.ofWords (ws : List Nat) : Regs where
  eip := ws.getD 0 0
  eflags := ws.getD 1 0
  eax := ws.getD 2 0
  ecx := ws.getD 3 0
  edx := ws.getD 4 0
  ebx := ws.getD 5 0
  esp := ws.getD 6 0
  ebp := ws.getD 7 0
  esi := ws.getD 8 0
  edi := ws.getD 9 0
  es := ws.getD 10 0
  cs := ws.getD 11 0
  ss := ws.getD 12 0
  ds := ws.getD 13 0
  fs := ws.getD 14 0
  gs := ws.getD 15 0

@[simp] theorem Regs.ofWords_words (r : Regs) : Regs.ofWords r.words = r := rfl

@[simp] theorem Regs.words_length (r : Regs) : r.words.length = 16 := rfl

/-- The offset of `eip` in a TSS, and the one of `cr3`. -/
def tssRegs : Nat := 8 * 4

def tssCr3 : Nat := 7 * 4

/-- The processor: its registers, and the task register with the base address that it keeps. -/
structure Cpu where
  regs : Regs
  cr3 : Nat
  tr : Nat
  trBase : Nat

/-! ### What the processor checks -/

/-- The privilege level of a descriptor. -/
def SegmentDesc.dpl (d : SegmentDesc) : Nat := (d.attr >>> 5) &&& 3

/-- A selector of an entry of the table, not the entry 0. -/
def InTable (sel : Nat) : Prop := 8 ≤ sel ∧ sel < gdtTableSize * segmentDescSize ∧ sel / 4 % 2 = 0

/-- A code segment that can be loaded: present, not conforming, and with the privilege of the
selector. -/
def CodeSegOk (gdt : Gdt) (sel : Nat) : Prop :=
  InTable sel ∧ (gdt (sel / 8)).attr &&& (segPPresent ||| segSNormal ||| segTypeCode ||| 4)
    = segPPresent ||| segSNormal ||| segTypeCode ∧ (gdt (sel / 8)).dpl = sel % 4

/-- A stack segment that can be loaded at the privilege `cpl`: present and writable data. -/
def StackSegOk (gdt : Gdt) (cpl sel : Nat) : Prop :=
  InTable sel ∧ (gdt (sel / 8)).attr &&& (segPPresent ||| segSNormal ||| segTypeCode ||| segTypeRw)
    = segPPresent ||| segSNormal ||| segTypeRw ∧ (gdt (sel / 8)).dpl = cpl ∧ sel % 4 = cpl

/-- A present segment that can be read: data, or readable code that is not conforming. -/
def SegmentDesc.IsReadable (d : SegmentDesc) : Prop :=
  d.attr &&& (segPPresent ||| segSNormal ||| segTypeCode) = segPPresent ||| segSNormal ∨
    d.attr &&& (segPPresent ||| segSNormal ||| segTypeCode ||| 4 ||| segTypeRw)
      = segPPresent ||| segSNormal ||| segTypeCode ||| segTypeRw

/-- A segment that can be loaded for data at the privilege `cpl`: the null selector, or a segment
that can be read. A conforming code segment is left out. -/
def DataSegOk (gdt : Gdt) (cpl sel : Nat) : Prop :=
  sel < 4 ∨ (InTable sel ∧ (gdt (sel / 8)).IsReadable ∧ cpl ≤ (gdt (sel / 8)).dpl ∧
    sel % 4 ≤ (gdt (sel / 8)).dpl)

/-- The segment registers can be loaded. -/
structure SegsOk (gdt : Gdt) (r : Regs) : Prop where
  cs : CodeSegOk gdt r.cs
  ss : StackSegOk gdt (r.cs % 4) r.ss
  data : ∀ sel ∈ [r.es, r.ds, r.fs, r.gs], DataSegOk gdt (r.cs % 4) sel

instance (sel : Nat) : Decidable (InTable sel) := inferInstanceAs (Decidable (_ ∧ _ ∧ _))

instance (gdt : Gdt) (sel : Nat) : Decidable (CodeSegOk gdt sel) :=
  inferInstanceAs (Decidable (_ ∧ _ ∧ _))

instance (gdt : Gdt) (cpl sel : Nat) : Decidable (StackSegOk gdt cpl sel) :=
  inferInstanceAs (Decidable (_ ∧ _ ∧ _ ∧ _))

instance (d : SegmentDesc) : Decidable d.IsReadable := inferInstanceAs (Decidable (_ ∨ _))

instance (gdt : Gdt) (cpl sel : Nat) : Decidable (DataSegOk gdt cpl sel) :=
  inferInstanceAs (Decidable (_ ∨ (_ ∧ _ ∧ _ ∧ _)))

instance (gdt : Gdt) (r : Regs) : Decidable (SegsOk gdt r) :=
  decidable_of_iff (CodeSegOk gdt r.cs ∧ StackSegOk gdt (r.cs % 4) r.ss ∧
      ∀ sel ∈ [r.es, r.ds, r.fs, r.gs], DataSegOk gdt (r.cs % 4) sel)
    ⟨fun h => ⟨h.1, h.2.1, h.2.2⟩, fun h => ⟨h.cs, h.ss, h.data⟩⟩

/-- A TSS that is present and not busy, with all of its words inside of the limit. -/
def SegmentDesc.IsFreeTss (d : SegmentDesc) : Prop :=
  d.attr &&& (segPPresent ||| segSNormal ||| 0xF) = segPPresent ||| segTypeTss ∧
    tssSize - 1 ≤ d.limit

instance (d : SegmentDesc) : Decidable d.IsFreeTss := inferInstanceAs (Decidable (_ ∧ _))

/-! ### The switch -/

/-- The busy bit in the type of a TSS. -/
def tssBusy : Nat := 1 <<< 1

def SegmentDesc.setBusy (d : SegmentDesc) : SegmentDesc := { d with attr := d.attr ||| tssBusy }

def SegmentDesc.clearBusy (d : SegmentDesc) : SegmentDesc :=
  { d with attr := d.attr &&& (2 ^ 16 - 1 - tssBusy) }

/-- `write_tr`: the instruction `ltr`. -/
def writeTr (gdt : Gdt) (cpu : Cpu) (tssSel : Nat) : Option (Gdt × Cpu) :=
  let d := gdt (tssSel / 8)
  if InTable tssSel ∧ d.IsFreeTss then
    some (update gdt (tssSel / 8) d.setBusy, { cpu with tr := tssSel, trBase := d.base })
  else none

/-- `switch_to_tss`: a far jump to the TSS. -/
def switchToTss (gdt : Gdt) (m : Mem) (cpu : Cpu) (tssSel : Nat) : Option (Gdt × Mem × Cpu) :=
  let d := gdt (tssSel / 8)
  if InTable tssSel ∧ d.IsFreeTss then
    let m := storeWords m (cpu.trBase + tssRegs) cpu.regs.words
    let gdt := update gdt (cpu.tr / 8) (gdt (cpu.tr / 8)).clearBusy
    let gdt := update gdt (tssSel / 8) d.setBusy
    let regs := Regs.ofWords (loadWords m (d.base + tssRegs) 16)
    if SegsOk gdt regs then
      some (gdt, m, { regs, cr3 := load32 m (d.base + tssCr3), tr := tssSel, trBase := d.base })
    else none
  else none

end StartKernel
