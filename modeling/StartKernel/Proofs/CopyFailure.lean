import StartKernel.Proofs.CopyContents

/-!
# `StartKernel.Proofs.CopyFailure`: what a copy that fails leaves behind

When `memory_copy_uvm` fails, it destroys the new address space. This gives back all frames that are
in the directory and in its tables. The frame of a page for which `memory_create_map` finds no
table is in none of them, and nobody frees it.

* `failedCopy_iff`: a copy that fails leaves the bitmap as it was, except when exactly one frame is
  free at the first page of a table.
* `failedCopy_leaks`: such a copy.
-/

set_option autoImplicit false

namespace StartKernel

variable {L : Layout} {s s' : MemState} {live held : List Nat} {d₀ r cr3 : Nat}

/-- A copy of `d₀` that fails leaves nothing behind: the bitmap is as before, bit for bit, and so
are the translations of the source. -/
def FailureKeeps (s : MemState) (d₀ r : Nat) (s' : MemState) : Prop :=
  r = toU32 (-1) → s'.paddrAlloc.bitmap = s.paddrAlloc.bitmap ∧
    ∀ v < 2 ^ 32, walk s'.mem d₀ v = walk s.mem d₀ v

/-- A copy, successful or not, keeps the translations of the source and the allocator well
formed. -/
theorem memoryCopyUvm_keeps (h : MemInv L s live held) (hd₀ : d₀ ∈ live)
    (he : memoryCopyUvm L cr3 s d₀ = some (r, s')) :
    PallocShape s'.paddrAlloc ∧ ∀ v < 2 ^ 32, walk s'.mem d₀ v = walk s.mem d₀ v := by
  rcases memoryCopyUvm_created h he with ⟨-, hinv, hc⟩ | ⟨-, rfl⟩ |
    ⟨-, hinv, d₁, s₁, hinv₁, hc, hmem⟩
  · have hsame := hc.samePages hinv (Or.inr hd₀)
    exact ⟨hinv.shape, fun v hv => hsame.pages _ (pdeIndex_lt hv) _ (pteIndex_lt v)⟩
  · exact ⟨h.shape, fun v _ => rfl⟩
  · have hsame := hc.samePages hinv₁ (Or.inr hd₀)
    refine ⟨hinv.shape, fun v hv => ?_⟩
    rw [hmem]
    exact hsame.pages _ (pdeIndex_lt hv) _ (pteIndex_lt v)

/-- A copy that fails leaves nothing behind, except when it gets to the first page of a table with
exactly one free frame. -/
theorem failedCopy_iff (h : MemInv L s live held) (hd₀ : d₀ ∈ live)
    (he : memoryCopyUvm L cr3 s d₀ = some (r, s')) :
    FailureKeeps s d₀ r s' ↔ ¬ CopyLeaks s d₀ := by
  have hrange := memoryCopyUvm_sameRange he
  obtain ⟨hshape, hwalk⟩ := memoryCopyUvm_keeps h hd₀ he
  rcases memoryCopyUvm_ends h hd₀ he with ⟨hr, hroom⟩ | ⟨hr, -, hleak, htaken⟩ |
    ⟨hr, -, hleak, f, hfree, htaken⟩
  · -- The copy did not fail, so there were frames for all its tables.
    refine ⟨fun _ => ?_, fun _ hr' => absurd hr' hr⟩
    rintro ⟨k, hk, hpages, hfree⟩
    have hcost := copyCost_lt hk hpages
    omega
  · refine ⟨fun _ => hleak, fun _ _ => ⟨?_, hwalk⟩⟩
    exact (hrange.sameBitmap h.shape hshape).mpr htaken
  · refine ⟨fun hkeeps => ?_, fun hno => absurd hleak hno⟩
    have hsame := (hrange.sameBitmap h.shape hshape).mp (hkeeps hr).1
    exact absurd ((hsame f).mp htaken) hfree

/-- With one page and plenty of frames nothing is left behind. -/
theorem failedCopy_one_page : ∃ s r s',
    memoryAllocForPageDir (oneSpace 16) 0x100000 0x80000000 4096 (pteU ||| pteW) = some (0, s) ∧
    memoryCopyUvm smallLayout 0x100000 s 0x100000 = some (r, s') ∧
    (FailureKeeps s 0x100000 r s' ↔ ¬ CopyLeaks s 0x100000) := by
  have hcount : freeCount (oneSpace 16).paddrAlloc = 15 := by decide +kernel
  obtain ⟨s, p, hs, hadded⟩ := onePage (by decide) (by decide) hcount
  have hd₀ : 0x100000 ∈ [0x100000] := List.mem_singleton_self _
  obtain ⟨r, s', he⟩ := memoryCopyUvm_returns hadded.inv hd₀
  exact ⟨s, r, s', hs, he, failedCopy_iff hadded.inv hd₀ he⟩

/-- An address space with one page is copied while two frames are free. The directory takes one and
the page takes the other one. There is none for the table, and the frame of the page stays
taken. -/
theorem failedCopy_leaks : ∃ s r s',
    memoryAllocForPageDir (oneSpace 5) 0x100000 0x80000000 4096 (pteU ||| pteW) = some (0, s) ∧
    MemInv smallLayout s [0x100000] [] ∧ freeCount s.paddrAlloc = 2 ∧
    memoryCopyUvm smallLayout 0x100000 s 0x100000 = some (r, s') ∧ r = toU32 (-1) ∧
    s'.paddrAlloc.bitmap ≠ s.paddrAlloc.bitmap := by
  have hcount : freeCount (oneSpace 5).paddrAlloc = 4 := by decide +kernel
  obtain ⟨s, p, hs, hadded⟩ := onePage (by decide) (by decide) hcount
  have hd₀ : 0x100000 ∈ [0x100000] := List.mem_singleton_self _
  obtain ⟨r, s', he⟩ := memoryCopyUvm_returns hadded.inv hd₀
  have hleft : freeCount (oneSpace 5).paddrAlloc = freeCount s.paddrAlloc + 1 + 1 := hadded.count
  have htwo : freeCount s.paddrAlloc = 2 := by omega
  have hcost := onePage_cost hadded
  have hleak : CopyLeaks s 0x100000 := by
    refine ⟨0, by decide, ?_, htwo⟩
    show 0 < (if pageAt s.mem 0x100000 512 0 = none then 0 else 1) + pagesFrom s.mem _ 512 1 1023
    rw [hadded.page, if_neg (Option.some_ne_none _)]
    omega
  rcases memoryCopyUvm_ends hadded.inv hd₀ he with ⟨-, hroom⟩ | ⟨-, -, hno, -⟩ |
    ⟨hr, -, -, f, hfree, htaken⟩
  · omega
  · exact absurd hleak hno
  · refine ⟨s, r, s', hs, hadded.inv, htwo, he, hr, fun hsame => ?_⟩
    have hshape := (memoryCopyUvm_keeps hadded.inv hd₀ he).1
    have hall := ((memoryCopyUvm_sameRange he).sameBitmap hadded.inv.shape hshape).mp hsame
    exact hfree ((hall f).mp htaken)

end StartKernel
