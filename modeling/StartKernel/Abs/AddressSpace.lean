import StartKernel.Core.Memory
import StartKernel.Lib.Ownership

/-!
# `StartKernel.Abs.AddressSpace`: page directories as maps, frames as resources

What the two-level tables are for: a page directory gives a page table to an index
(`tableAt`) and an entry to a pair of indices (`pageAt`), so to a virtual address (`walk`).

A frame is used as a directory, as a table of a directory, as a page of a user address, or it
was handed out by `memory_alloc_page` (`Role`, `Uses`). `MemInv` is the invariant of the memory
state: every frame in use is taken in the bitmap, and it is in use in one role at one place.
-/

set_option autoImplicit false

namespace StartKernel

open ByteMem (Mem load32 AgreeOff)
open Ownership (Owned)

/-- The entry `i` of the directory or the table in the frame `f`. -/
def entryAt (m : Mem) (f i : Nat) : Nat := load32 m (f + 4 * i)

/-- The page table of the directory `d` for the index `i`. -/
def tableAt (m : Mem) (d i : Nat) : Option Nat :=
  if present (entryAt m d i) then some (pdePaddr (entryAt m d i)) else none

/-- The present entry of the directory `d` for the indices `i` and `j`. -/
def pageAt (m : Mem) (d i j : Nat) : Option Nat :=
  (tableAt m d i).bind fun t => if present (entryAt m t j) then some (entryAt m t j) else none

/-- The present entry for a virtual address. -/
def walk (m : Mem) (d vaddr : Nat) : Option Nat := pageAt m d (pdeIndex vaddr) (pteIndex vaddr)

/-- The two memories differ only in frames for which `P` holds. -/
abbrev TouchedOnly (P : Nat → Prop) (m m' : Mem) : Prop :=
  AgreeOff (fun x => P (x / 4096 * 4096)) m m'

/-- A role of a frame. -/
inductive Role
  /-- The page directory of an address space. -/
  | dir (d : Nat)
  /-- The page table of the directory `d` for the index `i`. -/
  | table (d i : Nat)
  /-- The page of the directory `d` for the indices `i` and `j`. -/
  | page (d i j : Nat)
  /-- A page handed out by `memory_alloc_page`. -/
  | held (p : Nat)
  deriving DecidableEq

/-- The directory owns its entry `i`. A user directory owns the entries of the user half; the
other ones belong to `kernel_page_dir`. -/
def OwnsEntry (L : Layout) (live : List Nat) (d i : Nat) : Prop :=
  i < 1024 ∧ (d = L.kernelPageDir ∨ (d ∈ live ∧ 512 ≤ i))

/-- The frame `f` is in use in the role. `live` are the page directories of the address
spaces, and `held` are the pages that `memory_alloc_page` handed out. -/
def Uses (L : Layout) (m : Mem) (live held : List Nat) (f : Nat) : Role → Prop
  | .dir d => d ∈ live ∧ f = d
  | .table d i => OwnsEntry L live d i ∧ tableAt m d i = some f
  | .page d i j => d ∈ live ∧ 512 ≤ i ∧ i < 1024 ∧ j < 1024 ∧
      ∃ v, pageAt m d i j = some v ∧ ptePaddr v = f
  | .held p => p ∈ held ∧ f = p

/-- The bit of the frame is set in the bitmap of the allocator. -/
def Taken (a : AddrAlloc) (f : Nat) : Prop :=
  ∃ i : Nat, (i : Int) < a.bitmap.bitCount ∧ f = a.start + i * a.pageSize ∧
    bitmapGetBit a.bitmap i = 1

/-- The allocator as `memory_init` sets it up, with a managed range inside the part of memory
that the kernel maps. -/
structure PallocShape (a : AddrAlloc) : Prop where
  start : a.start = memExtStart
  pageSize : a.pageSize = memPageSize
  whole : a.size % memPageSize = 0
  bitCount : a.bitmap.bitCount = (a.size / memPageSize : Nat)
  fits : a.start + a.size ≤ memExtEnd + 1

/-- The invariant of the memory state. The kernel half of a directory is the one of
`kernel_page_dir`, and its tables in the user half are present, writable and open to user
code. -/
structure MemInv (L : Layout) (s : MemState) (live held : List Nat) : Prop where
  shape : PallocShape s.paddrAlloc
  image : L.kernelPageDir + 4096 ≤ memExtStart
  owned : Owned (Uses L s.mem live held) (Taken s.paddrAlloc)
  shared : ∀ d ∈ live, ∀ i < 512, entryAt s.mem d i = entryAt s.mem L.kernelPageDir i
  userPde : ∀ d ∈ live, ∀ i, 512 ≤ i → i < 1024 → present (entryAt s.mem d i) = true →
    entryAt s.mem d i % 8 = pteP ||| pteW ||| pdeU
  liveNodup : live.Nodup
  heldNodup : held.Nodup

end StartKernel
