import StartKernel.Core.Memory

/-!
# `StartKernel.Loader.Detect`: `detect_memory` of the loader

The 16-bit part of the loader asks the BIOS for the memory map, one entry with each call of
`int $0x15`. The BIOS is a function: of `contID` and of the buffer of the loader it makes the
registers and the buffer after the call. The messages on the screen are left out.
-/

set_option autoImplicit false

namespace StartKernel

/-- `BOOT_RAM_REGION_MAX`. -/
def bootRamRegionMax : Nat := 10

/-- The value of `eax` after a call that worked, "SMAP". -/
def smapSignature : Int := 0x534D4150

/-- `SMAP_entry_t`. -/
structure SmapEntry where
  baseL : Nat
  baseH : Nat
  lengthL : Nat
  lengthH : Nat
  type : Nat
  acpi : Nat

/-- What a call of `int $0x15` leaves: `eax`, `ecx` and `ebx`, and the buffer. -/
structure Int15Out where
  signature : Int
  bytes : Int
  contID : Nat
  entry : SmapEntry

/-- `int $0x15` with `eax = 0xE820` and `ecx = 24`. -/
abbrev Int15 := Nat → SmapEntry → Int15Out

/-- `boot_info`, as the loader fills it: the array, and the number of regions in it. -/
structure RegionArray where
  ramRegionCfg : Nat → Nat × Nat
  ramRegionCount : Nat

/-- One more region at the end. -/
def RegionArray.add (info : RegionArray) (region : Nat × Nat) : RegionArray where
  ramRegionCfg := Function.update info.ramRegionCfg info.ramRegionCount region
  ramRegionCount := info.ramRegionCount + 1

/-- The regions that the kernel finds in `boot_info`: the ones below the count. -/
def RegionArray.bootInfo (info : RegionArray) : BootInfo where
  ramRegionCfg := (List.range info.ramRegionCount).map info.ramRegionCfg

/-- The loop of `detect_memory`, with the number of iterations that are left. -/
def detectLoop (int15 : Int15) (contID : Nat) (entry : SmapEntry) (info : RegionArray) :
    Nat → RegionArray
  | 0 => info
  | n + 1 =>
    let out := int15 contID entry
    if out.signature ≠ smapSignature then info
    else if out.bytes > 20 ∧ out.entry.acpi &&& 1 = 0 then
      -- `continue`: the test of `contID` at the end of the body is left out.
      detectLoop int15 out.contID out.entry info n
    else
      -- Type 1 is memory. The high words are not looked at.
      let info :=
        if out.entry.type = 1 then info.add (out.entry.baseL, out.entry.lengthL) else info
      if out.contID = 0 then info else detectLoop int15 out.contID out.entry info n

/-- `detect_memory`, with `smap_entry` as it is on the stack before. -/
def detectMemory (int15 : Int15) (entry : SmapEntry) (info : RegionArray) : RegionArray :=
  detectLoop int15 0 entry { info with ramRegionCount := 0 } bootRamRegionMax

end StartKernel
