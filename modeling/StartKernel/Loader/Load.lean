import StartKernel.Cpu.Mmu
import StartKernel.Lib.Ports
import StartKernel.Loader.Elf

/-!
# `StartKernel.Loader.Load`: the 32-bit part of the loader (`loader/loader_32.c`)

The loader reads the kernel file from the disk, loads its segments, turns the paging on and calls
the kernel. What is behind the I/O ports is a parameter. The local variables are not in the memory,
and what the call pushes is left out.

A loop that polls the status register gives nothing when it is not over after `polls` iterations.
-/

set_option autoImplicit false

namespace StartKernel

open ByteMem (Mem store8 load32)

variable {σ : Type*}

/-- `SECTOR_SIZE`. -/
def sectorSize : Nat := 512

/-- `SYS_KERNEL_LOAD_ADDR`. -/
def sysKernelLoadAddr : Nat := 1024 * 1024

/-- The store of a `uint16_t`. -/
def store16 (m : Mem) (a : Nat) (w : BitVec 16) : Mem :=
  store8 (store8 m a (w.extractLsb' 0 8)) (a + 1) (w.extractLsb' 8 8)

/-- `while ((inb(0x1F7) & 0x88) != 0x8) {}`. -/
def waitData (p : Ports σ) (s : σ) : Nat → Option σ
  | 0 => none
  | n + 1 =>
    let (status, s) := p.inb s 0x1F7
    if status &&& 0x88#8 ≠ 0x8#8 then waitData p s n else some s

/-- The loop over the words of a sector: the memory, the devices and `data_buf`. -/
def readWords (p : Ports σ) (m : Mem) (s : σ) (dataBuf : Nat) : Nat → Mem × σ × Nat
  | 0 => (m, s, dataBuf)
  | n + 1 =>
    let (word, s) := p.inw s 0x1F0
    readWords p (store16 m dataBuf word) s (toU32 (dataBuf + 2)) n

/-- The loop over the sectors. -/
def readSectors (p : Ports σ) (polls : Nat) (m : Mem) (s : σ) (dataBuf : Nat) :
    Nat → Option (Mem × σ)
  | 0 => some (m, s)
  | sectorCount + 1 =>
    (waitData p s polls).bind fun s =>
      let (m, s, dataBuf) := readWords p m s dataBuf (sectorSize / 2)
      readSectors p polls m s dataBuf sectorCount

/-- The command that `read_disk` writes to the drive. -/
def readCommand (p : Ports σ) (s : σ) (sector sectorCount : Nat) : σ :=
  let s := p.outb s 0x1F6 0xE0#8
  let s := p.outb s 0x1F2 (.ofNat 8 (sectorCount >>> 8))
  let s := p.outb s 0x1F3 (.ofNat 8 (sector >>> 24))
  let s := p.outb s 0x1F4 0#8
  let s := p.outb s 0x1F5 0#8
  let s := p.outb s 0x1F2 (.ofNat 8 sectorCount)
  let s := p.outb s 0x1F3 (.ofNat 8 sector)
  let s := p.outb s 0x1F4 (.ofNat 8 (sector >>> 8))
  let s := p.outb s 0x1F5 (.ofNat 8 (sector >>> 16))
  p.outb s 0x1F7 0x24#8

/-- `read_disk`: the memory and the devices. -/
def readDisk (p : Ports σ) (polls : Nat) (m : Mem) (s : σ) (sector sectorCount buf : Nat) :
    Option (Mem × σ) :=
  readSectors p polls m (readCommand p s sector sectorCount) buf sectorCount

/-- What `load_kernel` changes: the memory, the devices and the control registers. -/
structure Machine32 (σ : Type*) where
  mem : Mem
  devices : σ
  cr0 : Nat
  cr3 : Nat
  cr4 : Nat

/-- `CR4_PSE`. -/
def cr4Pse : Nat := 1 <<< 4

/-- `CR0_PG`. -/
def cr0Pg : Nat := 1 <<< 31

/-- `PDE_PS` of the loader: the entry maps 4 MB. -/
def pdePs : Nat := 1 <<< 7

/-- `enable_page_mode`, with the address of its `page_dir`. -/
def enablePageMode (s : Machine32 σ) (pageDir : Nat) : Machine32 σ :=
  let s := { s with cr4 := s.cr4 ||| cr4Pse }
  let s := { s with cr3 := pageDir }
  { s with cr0 := s.cr0 ||| cr0Pg }

/-- How `load_kernel` ends: in the loop of `die`, or with a call of the kernel. -/
inductive LoadResult
  | dead
  | entered (kernelEntry bootInfo : Nat)

/-- `load_kernel`, with the addresses of `page_dir` and of `boot_info`. -/
def loadKernel (p : Ports σ) (polls : Nat) (pageDir bootInfo : Nat) (s : Machine32 σ) :
    Option (LoadResult × Machine32 σ) :=
  (readDisk p polls s.mem s.devices 100 500 sysKernelLoadAddr).bind fun read =>
    (reloadElfFile read.1 sysKernelLoadAddr).map fun loaded =>
      let kernelEntry := loaded.1
      let s := { s with mem := loaded.2, devices := read.2 }
      if kernelEntry = 0 then (.dead, s)
      else (.entered kernelEntry bootInfo, enablePageMode s pageDir)

/-- The physical address that the processor uses for an address. Nothing, when the access is a page
fault. -/
def Machine32.translate (s : Machine32 σ) (vaddr : Nat) : Option Nat :=
  if s.cr0 &&& cr0Pg = 0 then some vaddr
  else
    let pde := load32 s.mem (s.cr3 + 4 * pdeIndex vaddr)
    if ¬ present pde then none
    else if pde &&& pdePs ≠ 0 ∧ s.cr4 &&& cr4Pse ≠ 0 then
      some (pde / 2 ^ 22 * 2 ^ 22 + vaddr % 2 ^ 22)
    else
      let pte := load32 s.mem (pdePaddr pde + 4 * pteIndex vaddr)
      if present pte then some (ptePaddr pte + vaddr % 4096) else none

end StartKernel
