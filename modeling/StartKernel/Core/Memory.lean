import StartKernel.Core.AddrAlloc
import StartKernel.Cpu.Mmu
import StartKernel.Tools.Klib

/-!
# `StartKernel.Core.Memory`: physical memory and address spaces (`core/memory.c`)

The state is the physical memory and the page allocator `paddr_alloc`. The bytes of the
allocator's bitmap are kept in `paddr_alloc` and not in the memory; they lie below
`MEM_EBDA_START`, and no function writes there otherwise. The kernel half of every address space
maps the ranges of `kernel_map` to themselves (`KernelMapped`), so a pointer to a directory or a
table is a physical address. A copy goes through `kernelAddr`, which also knows the user half and
the page faults. The translation cache is not modelled.

A function that can stop the kernel, at an `ASSERT` or at a page fault, gives nothing in that
case. Log output is left out.
-/

set_option autoImplicit false

namespace StartKernel

open ByteMem (Mem load32 store8 store32)

/-- `MEM_EXT_START`. -/
def memExtStart : Nat := 1024 * 1024

/-- `MEM_EXT_END`. -/
def memExtEnd : Nat := 128 * 1024 * 1024 - 1

/-- `MEM_EBDA_START`. -/
def memEbdaStart : Nat := 0x80000

/-- `MEM_PAGE_SIZE`. -/
def memPageSize : Nat := 4096

/-- `MEMORY_TASK_BASE`: user addresses start here. -/
def memoryTaskBase : Nat := 0x80000000

/-- `CONSOLE_DISP_ADDR`. -/
def consoleDispAddr : Nat := 0xb8000

/-- `CONSOLE_DISP_END`. -/
def consoleDispEnd : Nat := 0xb8000 + 32 * 1024

/-- `CONSOLE_VIDEO_BASE`. -/
def consoleVideoBase : Nat := 0xb8000

/-- The addresses that the linker script `kernel.lds` fixes: the end of the code, the end of
the kernel image and of the first task behind it, and the address of the array
`kernel_page_dir`, which lies between `s_data` and the end of the image. -/
structure Layout where
  eText : Nat
  memFreeStart : Nat
  kernelPageDir : Nat
  text : 0x10000 ≤ eText
  aligned : kernelPageDir % 4096 = 0
  data : eText ≤ kernelPageDir
  bss : kernelPageDir + 4096 ≤ memFreeStart
  image : memFreeStart < 2 ^ 31

/-- The symbol `kernel_base`. -/
def Layout.kernelBase (_ : Layout) : Nat := 0

/-- The symbol `s_text`. -/
def Layout.sText (_ : Layout) : Nat := 0x10000

/-- The symbol `s_data`: the first page boundary from `e_text` on. -/
def Layout.sData (L : Layout) : Nat := (L.eText + 4095) / 4096 * 4096

/-- The memory and the page allocator. -/
structure MemState where
  mem : Mem
  paddrAlloc : AddrAlloc

/-- `addr_alloc_page(&paddr_alloc, 1)`. -/
def MemState.allocPage (s : MemState) : Nat × MemState :=
  ((addrAllocPage s.paddrAlloc 1).1, { s with paddrAlloc := (addrAllocPage s.paddrAlloc 1).2 })

/-- `addr_free_page(&paddr_alloc, addr, page_count)`. -/
def MemState.freePage (s : MemState) (addr pageCount : Nat) : MemState :=
  { s with paddrAlloc := addrFreePage s.paddrAlloc addr pageCount }

/-- A word of memory is assigned. -/
def MemState.store (s : MemState) (a v : Nat) : MemState := { s with mem := store32 s.mem a v }

/-- `find_pte`. The address of the entry, or 0. -/
def findPte (s : MemState) (pageDir vaddr : Nat) (alloc : Bool) : Nat × MemState :=
  let pde := pageDir + 4 * pdeIndex vaddr
  if present (load32 s.mem pde) then (pdePaddr (load32 s.mem pde) + 4 * pteIndex vaddr, s)
  else if alloc = false then (0, s)
  else
    let (pgPaddr, s) := s.allocPage
    if pgPaddr = 0 then (0, s)
    else
      let s := s.store pde (pgPaddr ||| pteP ||| pteW ||| pdeU)
      (pgPaddr + 4 * pteIndex vaddr, { s with mem := kernelMemset s.mem pgPaddr 0 memPageSize })

/-- `memory_create_map`. Nothing, when a page is mapped already. -/
def memoryCreateMap (s : MemState) (pageDir vaddr paddr : Nat) (count perm : Nat) :
    Option (Int × MemState) :=
  match count with
  | 0 => some (0, s)
  | count + 1 =>
    let (pte, s) := findPte s pageDir vaddr true
    if pte = 0 then some (-1, s)
    else if present (load32 s.mem pte) then none
    else memoryCreateMap (s.store pte (paddr ||| perm ||| pteP)) pageDir
      (toU32 (vaddr + memPageSize)) (toU32 (paddr + memPageSize)) count perm

/-- `memory_map_t`. -/
structure MemoryMap where
  vstart : Nat
  vend : Nat
  pstart : Nat
  perm : Nat

/-- The table `kernel_map` of `create_kernel_table`. -/
def kernelMap (L : Layout) : List MemoryMap :=
  [⟨L.kernelBase, L.sText, 0, pteW⟩,
   ⟨L.sText, L.eText, L.sText, 0⟩,
   ⟨L.sData, memEbdaStart - 1, L.sData, pteW⟩,
   ⟨consoleDispAddr, consoleDispEnd - 1, consoleVideoBase, pteW⟩,
   ⟨memExtStart, memExtEnd, memExtStart, pteW⟩]

/-- The loop of `create_kernel_table`. It ignores the result of each mapping. -/
def createKernelMaps (L : Layout) (s : MemState) : List MemoryMap → Option MemState
  | [] => some s
  | map :: maps =>
    let vstart := down2 map.vstart memPageSize
    let vend := up2 map.vend memPageSize
    let paddr := down2 map.pstart memPageSize
    let pageCount := toU32 (vend - vstart) / memPageSize
    (memoryCreateMap s L.kernelPageDir vstart paddr pageCount map.perm).bind fun r =>
      createKernelMaps L r.2 maps

/-- `create_kernel_table`. -/
def createKernelTable (L : Layout) (s : MemState) : Option MemState :=
  createKernelMaps L { s with mem := kernelMemset s.mem L.kernelPageDir 0 (4 * pdeCnt) }
    (kernelMap L)

/-- The loop of `memory_create_uvm`: `n` entries from the index `i` on are copied. -/
def copyPdes (m : Mem) (pageDir kernelPageDir i : Nat) : Nat → Mem
  | 0 => m
  | n + 1 =>
    copyPdes (store32 m (pageDir + 4 * i) (load32 m (kernelPageDir + 4 * i))) pageDir
      kernelPageDir (i + 1) n

/-- `memory_create_uvm`. -/
def memoryCreateUvm (L : Layout) (s : MemState) : Nat × MemState :=
  let (pageDir, s) := s.allocPage
  if pageDir = 0 then (0, s)
  else
    let m := kernelMemset s.mem pageDir 0 memPageSize
    (pageDir, { s with mem := copyPdes m pageDir L.kernelPageDir 0 (pdeIndex memoryTaskBase) })

/-- The inner loop of `memory_destroy_uvm`, over `n` entries of a table. -/
def freePages (s : MemState) (pte : Nat) : Nat → MemState
  | 0 => s
  | n + 1 =>
    if present (load32 s.mem pte) then
      freePages (s.freePage (ptePaddr (load32 s.mem pte)) 1) (pte + 4) n
    else freePages s (pte + 4) n

/-- The outer loop of `memory_destroy_uvm`, over `n` entries of the directory. -/
def freeTables (s : MemState) (pde : Nat) : Nat → MemState
  | 0 => s
  | n + 1 =>
    if present (load32 s.mem pde) then
      let table := pdePaddr (load32 s.mem pde)
      freeTables ((freePages s table pteCnt).freePage table 1) (pde + 4) n
    else freeTables s (pde + 4) n

/-- `memory_destroy_uvm`. -/
def memoryDestroyUvm (s : MemState) (pageDir : Nat) : Option MemState :=
  let userPdeStart := pdeIndex memoryTaskBase
  if pageDir = 0 then none
  else
    let s := freeTables s (pageDir + 4 * userPdeStart) (pdeCnt - userPdeStart)
    some (s.freePage pageDir 1)

/-- The address translation of the processor: a walk over the two levels. -/
def mmuTranslate (m : Mem) (cr3 vaddr : Nat) : Option Nat :=
  let pde := load32 m (cr3 + 4 * pdeIndex vaddr)
  if present pde then
    let pte := load32 m (pdePaddr pde + 4 * pteIndex vaddr)
    if present pte then some (ptePaddr pte + vaddr % 4096) else none
  else none

/-- The kernel's half of every address space maps the address, to itself: it lies in one of the
ranges of `kernel_map`, rounded outward to pages. -/
def KernelMapped (vaddr : Nat) : Prop :=
  vaddr < memEbdaStart ∨ (consoleDispAddr ≤ vaddr ∧ vaddr < consoleDispEnd) ∨
    (memExtStart ≤ vaddr ∧ vaddr ≤ memExtEnd)

instance (vaddr : Nat) : Decidable (KernelMapped vaddr) := inferInstanceAs (Decidable (_ ∨ _ ∨ _))

/-- The physical address behind a pointer of the kernel under the page directory `cr3`. Nothing, at
a page fault. -/
def kernelAddr (cr3 : Nat) (m : Mem) (vaddr : Nat) : Option Nat :=
  if vaddr < memoryTaskBase then (if KernelMapped vaddr then some vaddr else none)
  else mmuTranslate m cr3 vaddr

/-- A byte that the kernel reads under the page directory `cr3`. Nothing, at a page fault. -/
def kernelRead (cr3 : Nat) (m : Mem) (vaddr : Nat) : Option (BitVec 8) :=
  (kernelAddr cr3 m vaddr).map m

/-- The inner loop of `memory_copy_uvm`, over `n` entries of a table from the index `j` on.
The result is `false` where the code jumps to `copy_uvm_failed`. -/
def copyPages (cr3 : Nat) (s : MemState) (toPageDir pte i j : Nat) :
    Nat → Option (Bool × MemState)
  | 0 => some (true, s)
  | n + 1 =>
    if present (load32 s.mem pte) then
      let perm := getPtePerm (load32 s.mem pte)
      let (page, s) := s.allocPage
      if page = 0 then some (false, s)
      else
        let vaddr := (i <<< 22) ||| (j <<< 12)
        (memoryCreateMap s toPageDir vaddr page 1 perm).bind fun (err, s) =>
          if err < 0 then some (false, s)
          else
            (kernelMemcpy (kernelRead cr3) s.mem page vaddr memPageSize).bind fun m =>
              copyPages cr3 { s with mem := m } toPageDir (pte + 4) i (j + 1) n
    else copyPages cr3 s toPageDir (pte + 4) i (j + 1) n

/-- The outer loop of `memory_copy_uvm`, over `n` entries of the directory from the index `i`
on. -/
def copyTables (cr3 : Nat) (s : MemState) (toPageDir pde i : Nat) :
    Nat → Option (Bool × MemState)
  | 0 => some (true, s)
  | n + 1 =>
    if present (load32 s.mem pde) then
      (copyPages cr3 s toPageDir (pdePaddr (load32 s.mem pde)) i 0 pteCnt).bind fun (ok, s) =>
        if ok = false then some (false, s)
        else copyTables cr3 s toPageDir (pde + 4) (i + 1) n
    else copyTables cr3 s toPageDir (pde + 4) (i + 1) n

/-- `memory_copy_uvm`, run while `cr3` is the current page directory. -/
def memoryCopyUvm (L : Layout) (cr3 : Nat) (s : MemState) (pageDir : Nat) :
    Option (Nat × MemState) :=
  let (toPageDir, s) := memoryCreateUvm L s
  if toPageDir = 0 then some (toU32 (-1), s)
  else
    let userPdeStart := pdeIndex memoryTaskBase
    (copyTables cr3 s toPageDir (pageDir + 4 * userPdeStart) userPdeStart
      (pdeCnt - userPdeStart)).bind fun (ok, s) =>
        if ok then some (toPageDir, s)
        else (memoryDestroyUvm s toPageDir).map fun s => (toU32 (-1), s)

/-- `memory_get_paddr`. -/
def memoryGetPaddr (s : MemState) (pageDir vaddr : Nat) : Nat :=
  let (pte, s) := findPte s pageDir vaddr false
  if pte = 0 then 0
  else ptePaddr (load32 s.mem pte) + (vaddr &&& (memPageSize - 1))

/-- The loop of `kernel_memcpy`, with pointers that can be user addresses. -/
def copyThrough (cr3 : Nat) (m : Mem) (dest src : Nat) : Nat → Option Mem
  | 0 => some m
  | n + 1 =>
    (kernelRead cr3 m src).bind fun b =>
      (kernelAddr cr3 m dest).bind fun a =>
        copyThrough cr3 (store8 m a b) (dest + 1) (src + 1) n

/-- `kernel_memcpy`, with pointers that can be user addresses. -/
def kernelMemcpyThrough (cr3 : Nat) (m : Mem) (dest src size : Nat) : Option Mem :=
  if dest = 0 ∨ src = 0 ∨ size = 0 then some m else copyThrough cr3 m dest src size

/-- `memory_copy_uvm_data`, run while `cr3` is the current page directory. The physical address
`to_paddr` is used as a pointer, so it names its own byte only where the kernel maps it. -/
def memoryCopyUvmData (cr3 : Nat) (s : MemState) (toAddr pageDir fromAddr size : Nat) :
    Option (Int × MemState) :=
  if _ : size > 0 then
    let toPaddr := memoryGetPaddr s pageDir toAddr
    if toPaddr = 0 then some (-1, s)
    else
      let offsetInPage := toPaddr &&& (memPageSize - 1)
      let currSize := min (memPageSize - offsetInPage) size
      (kernelMemcpyThrough cr3 s.mem toPaddr fromAddr currSize).bind fun m =>
        memoryCopyUvmData cr3 { s with mem := m } (toU32 (toAddr + currSize)) pageDir
          (toU32 (fromAddr + currSize)) (size - currSize)
  else some (0, s)
termination_by size
decreasing_by
  -- The offset in the page is below the page size.
  have hoff : memoryGetPaddr s pageDir toAddr &&& (memPageSize - 1) ≤ memPageSize - 1 :=
    Nat.and_le_right
  have hpage : memPageSize = 4096 := rfl
  omega

/-- The loop of `memory_alloc_for_page_dir`, `n` pages from the index `i` on. -/
def allocForPages (s : MemState) (pageDir vaddr currVaddr perm i : Nat) :
    Nat → Option (Nat × MemState)
  | 0 => some (0, s)
  | n + 1 =>
    let (paddr, s) := s.allocPage
    if paddr = 0 then some (0, s)
    else
      (memoryCreateMap s pageDir currVaddr paddr 1 perm).bind fun (err, s) =>
        if err < 0 then some (toU32 (-1), s.freePage vaddr (i + 1))
        else allocForPages s pageDir vaddr (toU32 (currVaddr + memPageSize)) perm (i + 1) n

/-- `memory_alloc_for_page_dir`. The result is a `uint32_t`. -/
def memoryAllocForPageDir (s : MemState) (pageDir vaddr size perm : Nat) :
    Option (Nat × MemState) :=
  let pageCount := up2 size memPageSize / memPageSize
  allocForPages s pageDir (down2 vaddr memPageSize) vaddr perm 0 pageCount

/-- `memory_alloc_page_for`, for the current task, whose page directory is `cr3`. The result
is an `int`. -/
def memoryAllocPageFor (cr3 : Nat) (s : MemState) (addr size perm : Nat) :
    Option (Int × MemState) :=
  (memoryAllocForPageDir s cr3 addr size perm).map fun r => (toInt r.1, r.2)

/-- `memory_alloc_page`. -/
def memoryAllocPage (s : MemState) : Nat × MemState := s.allocPage

/-- `memory_free_page`. For a user address the `ASSERT` asks for a null pointer, and then the
word at address 0 is read and cleared. -/
def memoryFreePage (cr3 : Nat) (s : MemState) (addr : Nat) : Option MemState :=
  if addr < memoryTaskBase then some (s.freePage addr 1)
  else
    let (pte, s) := findPte s cr3 addr false
    if pte = 0 ∧ present (load32 s.mem pte) then
      some ((s.freePage (ptePaddr (load32 s.mem pte)) 1).store pte 0)
    else none

/-- `boot_info_t`: the start and the size of each memory region. -/
structure BootInfo where
  ramRegionCfg : List (Nat × Nat)

/-- `total_mem_size`. The sum is an `int`. -/
def totalMemSize (bootInfo : BootInfo) : Nat :=
  toU32 (bootInfo.ramRegionCfg.foldl (fun memSize region => toInt (memSize + region.2)) 0)

/-- `mem_up1MB_free` of `memory_init`: the size of the managed range. -/
def memUp1MBFree (bootInfo : BootInfo) : Nat :=
  down2 (toU32 (totalMemSize bootInfo - memExtStart)) memPageSize

/-- `memory_init`, with the memory as it is at boot. -/
def memoryInit (L : Layout) (bootInfo : BootInfo) (m : Mem) : Option MemState :=
  let paddrAlloc := addrAllocInit (fun i => m (L.memFreeStart + i)) memExtStart
    (memUp1MBFree bootInfo) memPageSize
  let memFree := toU32 (L.memFreeStart +
    bitmapByteCount (toInt (paddrAlloc.size / memPageSize : Nat)))
  if memFree < memEbdaStart then createKernelTable L ⟨m, paddrAlloc⟩ else none

/-- `sys_sbrk`, for a task with the page directory `cr3` and the heap end `heapEnd`. The
returned pointer, the new heap end and the state. -/
def sysSbrk (cr3 : Nat) (s : MemState) (heapEnd : Nat) (incr : Int) :
    Option (Nat × Nat × MemState) :=
  let preHeapEnd := heapEnd
  if incr < 0 then none
  else if incr = 0 then some (preHeapEnd, heapEnd, s)
  else
    let start := heapEnd
    let stop := toU32 (start + incr)
    let startOffset := start % memPageSize
    if startOffset ≠ 0 ∧ toInt (startOffset + incr) ≤ memPageSize then
      some (preHeapEnd, stop, s)
    else
      -- Only the part behind the page of `start` is left to allocate.
      let start' := if startOffset ≠ 0 then toU32 (start + (memPageSize - startOffset)) else start
      let incr' := if startOffset ≠ 0 then toInt (incr - (memPageSize - startOffset)) else incr
      if incr' ≠ 0 then
        (memoryAllocPageFor cr3 s start' (toU32 (stop - start')) (pteP ||| pteU ||| pteW)).bind
          fun (err, s) =>
            if err < 0 then some (toU32 (-1), heapEnd, s) else some (preHeapEnd, stop, s)
      else some (preHeapEnd, stop, s)

end StartKernel
