import StartKernel.Comm.Types
import StartKernel.Lib.CString

/-!
# `StartKernel.Loader.Elf`: `reload_elf_file` of the loader

The 32-bit part of the loader has the kernel file in a buffer and copies its segments to the places
where they run. Paging is off, so an address is a physical one, and the headers are read again from
the memory whenever the code looks at them. A sum of addresses wraps around, and so does an `int`.

A loop gives nothing when it is not over after `loopSteps` iterations.
-/

set_option autoImplicit false

namespace StartKernel

open ByteMem (Mem load32 store8 char)

/-- More iterations than a loop of the loader needs. -/
def loopSteps : Nat := 2 ^ 32

/-- `PT_LOAD`. -/
def ptLoad : Nat := 1

/-- A little-endian `uint16_t`. -/
def load16 (m : Mem) (a : Nat) : Nat := (m a).toNat + 256 * (m (a + 1)).toNat

/-- `Elf32_Ehdr`, as far as the loader reads it. -/
structure Ehdr where
  eEntry : Nat
  ePhoff : Nat
  ePhnum : Nat

/-- The header at an address. -/
def readEhdr (m : Mem) (a : Nat) : Ehdr :=
  ⟨load32 m (a + 24), load32 m (a + 28), load16 m (a + 44)⟩

/-- `Elf32_Phdr`, as far as the loader reads it. -/
structure Phdr where
  pType : Nat
  pOffset : Nat
  pPaddr : Nat
  pFilesz : Nat
  pMemsz : Nat

/-- The program header at an address. -/
def readPhdr (m : Mem) (a : Nat) : Phdr :=
  ⟨load32 m a, load32 m (a + 4), load32 m (a + 12), load32 m (a + 16), load32 m (a + 20)⟩

/-- The test of `e_ident`. -/
def HasMagic (m : Mem) (fileBuffer : Nat) : Prop :=
  m fileBuffer = 0x7F#8 ∧ m (fileBuffer + 1) = char 'E' ∧ m (fileBuffer + 2) = char 'L' ∧
    m (fileBuffer + 3) = char 'F'

instance (m : Mem) (fileBuffer : Nat) : Decidable (HasMagic m fileBuffer) :=
  inferInstanceAs (Decidable (_ ∧ _ ∧ _ ∧ _))

/-- The loop that copies the bytes of a segment. `j` is compared as a `uint32_t`. -/
def copyBytes (phdr : Nat) (m : Mem) (dest src : Nat) (j : Int) : Nat → Option Mem
  | 0 => none
  | n + 1 =>
    -- The header is read in front of each byte.
    if toU32 j < (readPhdr m phdr).pFilesz then
      copyBytes phdr (store8 m dest (m src)) (toU32 (dest + 1)) (toU32 (src + 1)) (toInt (j + 1)) n
    else some m

/-- The loop that clears the bytes of a segment that are not in the file. -/
def clearBytes (phdr : Nat) (m : Mem) (dest : Nat) (j : Int) : Nat → Option Mem
  | 0 => none
  | n + 1 =>
    if toU32 j < toU32 ((readPhdr m phdr).pMemsz - (readPhdr m phdr).pFilesz) then
      clearBytes phdr (store8 m dest 0#8) (toU32 (dest + 1)) (toInt (j + 1)) n
    else some m

/-- One segment. -/
def loadSegment (m : Mem) (fileBuffer phdr : Nat) : Option Mem :=
  (copyBytes phdr m (readPhdr m phdr).pPaddr (toU32 (fileBuffer + (readPhdr m phdr).pOffset)) 0
    loopSteps).bind fun m =>
      clearBytes phdr m (toU32 ((readPhdr m phdr).pPaddr + (readPhdr m phdr).pFilesz)) 0 loopSteps

/-- The loop over the program headers. -/
def loadSegments (fileBuffer : Nat) (m : Mem) (i : Int) : Nat → Option Mem
  | 0 => none
  | n + 1 =>
    if i < (readEhdr m fileBuffer).ePhnum then
      let phdr := toU32 (fileBuffer + (readEhdr m fileBuffer).ePhoff + 32 * i)
      -- `continue` goes on with the next header.
      if (readPhdr m phdr).pType ≠ ptLoad then loadSegments fileBuffer m (toInt (i + 1)) n
      else (loadSegment m fileBuffer phdr).bind fun m =>
        loadSegments fileBuffer m (toInt (i + 1)) n
    else some m

/-- `reload_elf_file`: the entry address, or 0, and the memory. -/
def reloadElfFile (m : Mem) (fileBuffer : Nat) : Option (Nat × Mem) :=
  if ¬ HasMagic m fileBuffer then some (0, m)
  else (loadSegments fileBuffer m 0 loopSteps).map fun m => ((readEhdr m fileBuffer).eEntry, m)

end StartKernel
