import StartKernel.Lib.Ranges
import StartKernel.Proofs.KernelMap

/-!
# `StartKernel.Proofs.MemorySize`: the allocator manages memory that exists

`memory_init` adds up the sizes of the memory regions, takes 1 MB off and rounds down. Nothing
checks that the sum is at least 1 MB.

* `totalMemSize_eq`: the sum, as a `uint32_t`.
* `realMemory_iff`: the managed range is computed without wrapping around and consists of memory
  exactly when the regions have at least 1 MB and less than 4 GB in total.
-/

set_option autoImplicit false

namespace StartKernel

open ByteMem (Mem)
open Ranges (Covers)

variable {L : Layout} {s : MemState} {m : Mem} {bootInfo : BootInfo}

/-- The size of all regions together. -/
def BootInfo.ramSize (bootInfo : BootInfo) : Nat := (bootInfo.ramRegionCfg.map Prod.snd).sum

/-- The address lies in a reported region. -/
def BootInfo.InRam (bootInfo : BootInfo) (x : Nat) : Prop :=
  ∃ region ∈ bootInfo.ramRegionCfg, Covers region x

/-- The boot information that the loader makes: at most ten regions within 32 bits that do not
overlap, and the memory from 1 MB on is one range, which may be empty. -/
structure LoaderMap (bootInfo : BootInfo) : Prop where
  count : bootInfo.ramRegionCfg.length ≤ 10
  bits : ∀ region ∈ bootInfo.ramRegionCfg, region.1 < 2 ^ 32 ∧ region.2 < 2 ^ 32 ∧
    region.1 + region.2 ≤ 2 ^ 32
  disjoint : bootInfo.ramRegionCfg.Pairwise Ranges.Disjoint
  noGap : ∃ stop, memExtStart ≤ stop ∧ ∀ x, memExtStart ≤ x → (bootInfo.InRam x ↔ x < stop)

/-- The computation of the managed range does not wrap around, neither in the sum nor in the
subtraction, and every address of a page of the range lies in a reported region. -/
structure RealMemory (bootInfo : BootInfo) (s : MemState) : Prop where
  sum : totalMemSize bootInfo = bootInfo.ramSize
  sub : memExtStart ≤ totalMemSize bootInfo
  size : s.paddrAlloc.size = (totalMemSize bootInfo - memExtStart) / memPageSize * memPageSize
  inRam : ∀ x, s.paddrAlloc.start ≤ x → x < s.paddrAlloc.start + s.paddrAlloc.size →
    bootInfo.InRam x

/-- The loop of `total_mem_size` adds up modulo `2^32`. -/
theorem totalMemSize_eq (bootInfo : BootInfo) :
    totalMemSize bootInfo = bootInfo.ramSize % 2 ^ 32 := by
  have hloop : ∀ (regions : List (Nat × Nat)) (acc : Int),
      (regions.foldl (fun memSize region => toInt (memSize + region.2)) acc) % 2 ^ 32
        = (acc + (regions.map Prod.snd).sum) % 2 ^ 32 := by
    intro regions
    induction regions with
    | nil => simp
    | cons region regions ih =>
      intro acc
      have hint : toInt (acc + region.2) % 2 ^ 32 = (acc + region.2) % 2 ^ 32 :=
        Int.bmod_emod
      rw [List.foldl_cons, ih, List.map_cons, List.sum_cons, Nat.cast_add, ← Int.add_assoc,
        Int.add_emod, hint, ← Int.add_emod]
  unfold totalMemSize toU32 BootInfo.ramSize
  rw [hloop]
  omega

/-- The regions are not longer in total than the memory up to its end. -/
theorem LoaderMap.ramSize_le (h : LoaderMap bootInfo) {stop : Nat} (hstop : memExtStart ≤ stop)
    (hram : ∀ x, memExtStart ≤ x → (bootInfo.InRam x ↔ x < stop)) : bootInfo.ramSize ≤ stop := by
  refine Ranges.sum_length_le h.disjoint fun region hr x hx => ?_
  by_cases hlow : memExtStart ≤ x
  · exact (hram x hlow).mp ⟨region, hr, hx⟩
  · omega

/-- The managed range is computed without wrapping around and consists of memory exactly when the
regions have at least 1 MB and less than 4 GB in total. -/
theorem realMemory_iff (h : LoaderMap bootInfo) (he : memoryInit L bootInfo m = some s) :
    RealMemory bootInfo s ↔ memExtStart ≤ bootInfo.ramSize ∧ bootInfo.ramSize < 2 ^ 32 := by
  have htotal := totalMemSize_eq bootInfo
  obtain ⟨hstart, hsize, -, -⟩ := memoryInit_range he
  constructor
  · intro hreal
    have hsum := hreal.sum
    have hsub := hreal.sub
    omega
  · rintro ⟨hlow, hhigh⟩
    have hsum : totalMemSize bootInfo = bootInfo.ramSize := by omega
    have hfree : memUp1MBFree bootInfo
        = (totalMemSize bootInfo - memExtStart) / memPageSize * memPageSize := by
      have hcast : (totalMemSize bootInfo : Int) - memExtStart
          = ((totalMemSize bootInfo - memExtStart : Nat) : Int) := by omega
      unfold memUp1MBFree memPageSize
      rw [hcast, toU32_natCast (by omega), down2_page (by omega)]
    refine ⟨hsum, by omega, hsize.trans hfree, ?_⟩
    intro x hx₁ hx₂
    obtain ⟨stop, hstop, hram⟩ := h.noGap
    have hle := h.ramSize_le hstop hram
    have hround := Nat.div_mul_le_self (totalMemSize bootInfo - memExtStart) memPageSize
    rw [hstart] at hx₁ hx₂
    rw [hsize, hfree] at hx₂
    exact (hram x hx₁).mpr (by omega)

/-- The regions of a machine with 16 MB. -/
theorem loaderMap_sixteenMB : LoaderMap sixteenMB where
  count := by decide
  bits := by decide
  disjoint := by
    unfold sixteenMB Ranges.Disjoint
    simp
  noGap := by
    refine ⟨0x1000000, by decide, fun x hx => ?_⟩
    unfold memExtStart at hx
    unfold BootInfo.InRam sixteenMB Covers
    simp only [List.mem_cons, List.not_mem_nil, or_false, exists_eq_or_imp, exists_eq_left]
    omega

/-- With 16 MB of memory the managed range is memory. -/
theorem realMemory_sixteenMB :
    ∃ s, memoryInit smallLayout sixteenMB (fun _ => 0#8) = some s ∧ RealMemory sixteenMB s := by
  obtain ⟨s, he⟩ := memoryInit_sixteenMB
  exact ⟨s, he, (realMemory_iff loaderMap_sixteenMB he).mpr (by decide)⟩

/-- A machine whose only memory is the one below 640 KB. -/
def lowMemory : BootInfo := ⟨[(0, 0x9fc00)]⟩

/-- The region of a machine without memory from 1 MB on. -/
theorem loaderMap_lowMemory : LoaderMap lowMemory where
  count := by decide
  bits := by decide
  disjoint := by simp [lowMemory]
  noGap := by
    refine ⟨0x100000, by decide, fun x hx => ?_⟩
    unfold memExtStart at hx
    unfold BootInfo.InRam lowMemory Covers
    simp only [List.mem_cons, List.not_mem_nil, or_false, exists_eq_left]
    omega

/-- Without memory from 1 MB on, `memory_init` returns. The subtraction wraps around, and the
allocator manages addresses behind the memory. -/
theorem not_realMemory_lowMemory :
    ∃ s, LoaderMap lowMemory ∧ memoryInit smallLayout lowMemory (fun _ => 0#8) = some s ∧
      ¬ RealMemory lowMemory s := by
  have hin : ¬ InKernelMap lowMemory := by
    unfold InKernelMap
    decide +kernel
  obtain ⟨s, he, -⟩ := memoryInit_large (L := smallLayout) (fun _ => 0#8) hin (by decide +kernel)
  refine ⟨s, loaderMap_lowMemory, he, fun hreal => ?_⟩
  exact absurd hreal.sub (by decide +kernel)

end StartKernel
