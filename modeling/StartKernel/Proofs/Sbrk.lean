import StartKernel.Lib.Trace
import StartKernel.Proofs.AllocForPageDir

/-!
# `StartKernel.Proofs.Sbrk`: the heap of a task

A task grows its heap with `sys_sbrk`, while other tasks take and give back memory. The pages
that the heap reaches into should be mapped for the task (`Covered`).

* `sysSbrk_eq`: a call stays in a mapped page, or it allocates whole pages behind the heap.
* `sbrk_run`: in a run whose calls all meet `SbrkFits`, every call keeps what `SbrkOk` says.
* `sbrk_without_frames`: a call that returns success with a heap that is not mapped.
-/

set_option autoImplicit false

namespace StartKernel

open ByteMem (Mem)
open Trace (run Meets)

variable {L : Layout} {s s' : MemState} {live held : List Nat} {m m' : Mem}
  {d heapStart heapEnd incr k n p v : Nat}

/-! ### One call -/

/-- The first page boundary from the heap end on. -/
def heapFirst (heapEnd : Nat) : Nat := (heapEnd + 4095) / 4096 * 4096

/-- The number of pages behind the heap that the call allocates. -/
def heapPages (heapEnd incr : Nat) : Nat := (heapEnd + incr - heapFirst heapEnd + 4095) / 4096

/-- The permission of heap pages. -/
def heapPerm : Nat := pteP ||| pteU ||| pteW

theorem heapFirst_aligned (heapEnd : Nat) : heapFirst heapEnd % 4096 = 0 :=
  Nat.mul_mod_left _ _

theorem le_heapFirst (heapEnd : Nat) : heapEnd ≤ heapFirst heapEnd := by
  unfold heapFirst
  omega

/-- Where there are pages to allocate, the new heap end is behind the first of them. -/
theorem heapFirst_lt (h : heapPages heapEnd incr ≠ 0) : heapFirst heapEnd < heapEnd + incr := by
  unfold heapPages at h
  omega

/-- No page is allocated when the new heap end is in the page of the old one. -/
theorem heapPages_in_page (hoff : heapEnd % 4096 ≠ 0) (hin : heapEnd % 4096 + incr ≤ 4096) :
    heapPages heapEnd incr = 0 := by
  unfold heapPages heapFirst
  omega

theorem heapPages_zero (heapEnd : Nat) : heapPages heapEnd 0 = 0 := by
  unfold heapPages heapFirst
  omega

theorem heapPages_pos (hincr : 0 < incr)
    (hin : ¬ (heapEnd % 4096 ≠ 0 ∧ heapEnd % 4096 + incr ≤ 4096)) :
    heapPages heapEnd incr ≠ 0 := by
  unfold heapPages heapFirst
  omega

/-- The start of the allocation, as `sys_sbrk` computes it. -/
theorem sbrk_start (hlt : heapFirst heapEnd < 2 ^ 32) :
    (if heapEnd % memPageSize ≠ 0 then
      toU32 ((heapEnd : Int) + (memPageSize - (heapEnd % memPageSize : Nat))) else heapEnd)
        = heapFirst heapEnd := by
  unfold heapFirst memPageSize at *
  split
  · have hsum : (heapEnd : Int) + ((4096 : Nat) - (heapEnd % 4096 : Nat))
        = ((heapEnd + 4095) / 4096 * 4096 : Nat) := by omega
    rw [hsum, toU32_natCast hlt]
  · omega

/-- The increment that is left is not zero. -/
theorem sbrk_rest (hincr : incr < 2 ^ 31) (hpos : heapFirst heapEnd < heapEnd + incr) :
    (if heapEnd % memPageSize ≠ 0 then
      toInt ((incr : Int) - (memPageSize - (heapEnd % memPageSize : Nat))) else incr) ≠ 0 := by
  unfold heapFirst at hpos
  unfold memPageSize
  split
  · rw [toInt_of_fits (by omega) (by omega)]
    omega
  · omega

/-- A call of `sys_sbrk` whose new heap end fits in 32 bits. Either there is no page to
allocate, or the result depends on the allocation of the pages behind the heap. -/
theorem sysSbrk_eq (hbase : 0x80000000 ≤ heapEnd) (hincr : incr < 2 ^ 31)
    (hfits : heapEnd + incr < 2 ^ 32) :
    sysSbrk d s heapEnd incr =
      if heapPages heapEnd incr = 0 then some (heapEnd, heapEnd + incr, s)
      else (memoryAllocPageFor d s (heapFirst heapEnd) (heapEnd + incr - heapFirst heapEnd)
        heapPerm).bind fun r =>
          if r.1 < 0 then some (toU32 (-1), heapEnd, r.2)
          else some (heapEnd, heapEnd + incr, r.2) := by
  have hstop : toU32 ((heapEnd : Int) + incr) = heapEnd + incr := by
    rw [← Nat.cast_add]
    exact toU32_natCast hfits
  have hoff : toInt (((heapEnd % memPageSize : Nat) : Int) + incr)
      = ((heapEnd % memPageSize : Nat) : Int) + incr := by
    unfold memPageSize
    exact toInt_of_fits (by omega) (by omega)
  unfold sysSbrk
  simp only [hstop, hoff]
  rw [if_neg (by omega)]
  by_cases hzero : incr = 0
  · -- `sbrk(0)` returns the heap end.
    subst hzero
    rw [if_pos (heapPages_zero heapEnd), if_pos Nat.cast_zero, Nat.add_zero]
  rw [if_neg (by omega)]
  by_cases hin : heapEnd % 4096 ≠ 0 ∧ heapEnd % 4096 + incr ≤ 4096
  · -- The new heap end is in the page of the old one.
    rw [if_pos (by unfold memPageSize; omega), if_pos (heapPages_in_page hin.1 hin.2)]
  · have hpages := heapPages_pos (Nat.pos_of_ne_zero hzero) hin
    have hpos := heapFirst_lt hpages
    have hsize : toU32 (((heapEnd + incr : Nat) : Int) - (heapFirst heapEnd : Nat))
        = heapEnd + incr - heapFirst heapEnd := by
      rw [← Nat.cast_sub hpos.le]
      exact toU32_natCast (by omega)
    rw [if_neg (by unfold memPageSize; omega), sbrk_start (hpos.trans hfits),
      if_pos (sbrk_rest hincr hpos), hsize, if_neg hpages]
    rfl

/-- The allocation of a call, when the loop over its pages returns. -/
theorem sbrk_alloc (hincr : incr < 2 ^ 31) (hfits : heapEnd + incr < 2 ^ 32)
    (hpages : heapPages heapEnd incr ≠ 0) :
    memoryAllocPageFor d s (heapFirst heapEnd) (heapEnd + incr - heapFirst heapEnd) heapPerm =
      (allocForPages s d (heapFirst heapEnd) (toU32 (heapFirst heapEnd)) heapPerm 0
        (heapPages heapEnd incr)).map fun r => (toInt r.1, r.2) := by
  have hpos := heapFirst_lt hpages
  have hlow := le_heapFirst heapEnd
  unfold memoryAllocPageFor
  rw [memoryAllocForPageDir_eq (heapFirst_aligned heapEnd) (hpos.trans hfits) (by omega)]
  rfl

/-! ### Runs of a task -/

/-- The directory is the one of an address space in a memory state that satisfies the
invariant. -/
def InSpace (L : Layout) (s : MemState) (d : Nat) : Prop :=
  ∃ live held, MemInv L s live held ∧ d ∈ live

/-- The page of the address `p` is present, writable and open to user code, in the directory
and in its table. -/
def UserPage (m : Mem) (d p : Nat) : Prop :=
  entryAt m d (pdeIndex p) % 8 = pteP ||| pteW ||| pteU ∧
    ∃ e, walk m d p = some e ∧ e % 8 = pteP ||| pteW ||| pteU

/-- Every page that the heap from `heapStart` to `heapEnd` reaches into is mapped. The page of a
`heapStart` inside a page counts for the empty heap too. -/
def Covered (m : Mem) (d heapStart heapEnd : Nat) : Prop :=
  ∀ p, p % 4096 = 0 → heapStart < p + 4096 → p < heapEnd → UserPage m d p

/-- The memory, the heap end of the task and the pointer that its last call returned. -/
structure HeapState where
  mem : MemState
  heapEnd : Nat
  ret : Nat

/-- The task grows its heap, or other tasks change the memory. -/
inductive HeapLabel
  | sbrk (incr : Nat)
  | others (mem : MemState)

/-- One step of the task with the directory `d`, or of other tasks. -/
def heapStep (d : Nat) (c : HeapState) : HeapLabel → Option HeapState
  | .sbrk incr => (sysSbrk d c.mem c.heapEnd incr).map fun r => ⟨r.2.2, r.2.1, r.1⟩
  | .others mem => some { c with mem }

/-- Other tasks keep the invariant and the pages of the task. A call of `sys_sbrk` has an
argument that fits in an `int`. Its new heap end fits in 32 bits, and the free frames do not
run out just in front of a page that it comes to. -/
def SbrkFits (L : Layout) (d : Nat) (c : HeapState) : HeapLabel → Prop
  | .sbrk incr => incr < 2 ^ 31 ∧ c.heapEnd + incr < 2 ^ 32 ∧
      ∀ k < heapPages c.heapEnd incr,
        (∀ l < k, walk c.mem.mem d (heapFirst c.heapEnd + 4096 * l) = none) →
        framesNeeded c.mem.mem d (heapFirst c.heapEnd) k ≠ freeCount c.mem.paddrAlloc
  | .others mem => InSpace L mem d ∧ ∀ i < 1024, ∀ j < 1024,
      pageAt mem.mem d i j = pageAt c.mem.mem d i j

/-- What a call of `sys_sbrk` promises: without an error the heap has grown by the increment,
it is mapped, and the old heap end is returned; with an error the heap end is the old one. -/
def SbrkOk (d heapStart : Nat) (c : HeapState) (incr : Nat) (c' : HeapState) : Prop :=
  (c'.ret ≠ toU32 (-1) → Covered c'.mem.mem d heapStart c'.heapEnd ∧
    c'.heapEnd = c.heapEnd + incr ∧ c'.heapEnd < 2 ^ 32 ∧ c'.ret = c.heapEnd) ∧
  (c'.ret = toU32 (-1) → c'.heapEnd = c.heapEnd)

/-- The heap of the task is mapped. -/
structure HeapInv (L : Layout) (d heapStart : Nat) (c : HeapState) : Prop where
  space : InSpace L c.mem d
  user : 0x80000000 ≤ heapStart
  le : heapStart ≤ c.heapEnd
  covered : Covered c.mem.mem d heapStart c.heapEnd

/-- A mapped page with the heap permission is open to the task. -/
theorem MemInv.userPage (h : MemInv L s live held) (hd : d ∈ live) (h₁ : 0x80000000 ≤ p)
    (h₂ : p < 2 ^ 32) {e : Nat} (hw : walk s.mem d p = some e)
    (he : e % 8 = pteP ||| pteW ||| pteU) : UserPage s.mem d p := by
  obtain ⟨t, ht⟩ := tableAt_of_pageAt (h := by rw [← walk, hw]; simp)
  exact ⟨h.userPde d hd _ (pdeIndex_user h₁) (pdeIndex_lt h₂) (tableAt_eq_some ht).1, e, hw, he⟩

/-- A heap stays mapped when its pages do not change. -/
theorem Covered.congr (h : Covered m d heapStart heapEnd) (hd : InSpace L s' d)
    (hbase : 0x80000000 ≤ heapStart) (hend : heapEnd < 2 ^ 32)
    (hsame : ∀ p, p % 4096 = 0 → p < heapEnd → walk s'.mem d p = walk m d p) :
    Covered s'.mem d heapStart heapEnd := by
  obtain ⟨live, held, hinv, hlive⟩ := hd
  intro p hal h₁ h₂
  obtain ⟨-, e, hw, he⟩ := h p hal h₁ h₂
  exact hinv.userPage hlive (by omega) (by omega) ((hsame p hal h₂).trans hw) he

/-- The pages of the heap are not in the range behind it. -/
theorem RangeMapped.heap_walk {perm : Nat} (h : RangeMapped s d (heapFirst heapEnd) n perm s')
    (hv : heapFirst heapEnd + 4096 * n ≤ 2 ^ 32) (hend : heapEnd < 2 ^ 32) (hal : p % 4096 = 0)
    (hp : p < heapEnd) : walk s'.mem d p = walk s.mem d p := by
  refine h.others _ (pdeIndex_lt (by omega)) _ (pteIndex_lt _) fun k hk hij => ?_
  have hsame := same_page hij.1 hij.2
  unfold heapFirst at hsame
  omega

/-- The range of pages behind the heap. -/
theorem heapPages_inside (hfits : heapEnd + incr < 2 ^ 32) :
    heapFirst heapEnd + 4096 * heapPages heapEnd incr ≤ 2 ^ 32 := by
  unfold heapPages heapFirst
  omega

/-- The three ways in which a call ends, when the frames do not run out in front of a page: it
stops the kernel at a page that is mapped already, it maps all pages behind the heap, or it
reports an error and leaves the heap end. -/
theorem sysSbrk_cases (h : InSpace L s d) (hbase : 0x80000000 ≤ heapEnd)
    (hincr : incr < 2 ^ 31) (hfits : heapEnd + incr < 2 ^ 32)
    (hframes : ∀ k < heapPages heapEnd incr,
      (∀ l < k, walk s.mem d (heapFirst heapEnd + 4096 * l) = none) →
      framesNeeded s.mem d (heapFirst heapEnd) k ≠ freeCount s.paddrAlloc) :
    (sysSbrk d s heapEnd incr = none ∧
      ∃ k < heapPages heapEnd incr, walk s.mem d (heapFirst heapEnd + 4096 * k) ≠ none) ∨
    (∃ s', sysSbrk d s heapEnd incr = some (heapEnd, heapEnd + incr, s') ∧
      RangeMapped s d (heapFirst heapEnd) (heapPages heapEnd incr) heapPerm s' ∧
      InSpace L s' d) ∨
    (∃ k s' a', k < heapPages heapEnd incr ∧
      freeCount s.paddrAlloc < framesNeeded s.mem d (heapFirst heapEnd) (k + 1) ∧
      sysSbrk d s heapEnd incr
        = some (toU32 (-1), heapEnd, { s' with paddrAlloc := a' }) ∧
      RangeMapped s d (heapFirst heapEnd) k heapPerm s' ∧
      InSpace L { s' with paddrAlloc := a' } d) := by
  obtain ⟨live, held, hinv, hlive⟩ := h
  rw [sysSbrk_eq hbase hincr hfits]
  by_cases hpages : heapPages heapEnd incr = 0
  · -- The heap still ends in its last page: no page is asked for.
    right
    left
    rw [if_pos hpages, hpages]
    exact ⟨s, rfl, rangeMapped_zero s d _ _, live, held, hinv, hlive⟩
  have hpos := heapFirst_lt hpages
  have hlow := le_heapFirst heapEnd
  have hperm : heapPerm < 4096 := by decide
  have hzero : toInt ((0 : Nat) : Int) = 0 := by decide
  rw [if_neg hpages, sbrk_alloc hincr hfits hpages]
  rcases allocForPages_cases (i := 0) hinv hlive hperm (hbase.trans hlow)
      (hpos.trans hfits) (hbase.trans hlow) (heapPages_inside hfits) with
    ⟨-, s', he, hr, hinv'⟩ | ⟨k, hk, hfree, hF, -⟩ |
    ⟨k, hk, -, hfew, s', f, a', he, hr, hinv', ha⟩ | ⟨k, hk, hwalk, he⟩
  · right
    left
    refine ⟨s', ?_, hr, live, held, hinv', hlive⟩
    simp only [he, Option.map_some, Option.bind_some, hzero, lt_irrefl, if_false]
  · exact absurd hF (hframes k hk hfree)
  · right
    right
    refine ⟨k, s', a', hk, hfew, ?_, hr, live, held, hinv'.alloc ha, hlive⟩
    have hneg : (-1 : Int) < 0 := by decide
    simp only [he, Option.map_some, Option.bind_some, toInt_error, hneg, if_true]
  · left
    refine ⟨?_, k, hk, hwalk⟩
    rw [he]
    rfl

/-- A call that meets the condition keeps its promise and the invariant. -/
theorem sbrk_step {c c' : HeapState} (h : HeapInv L d heapStart c)
    (hP : SbrkFits L d c (.sbrk incr)) (he : heapStep d c (.sbrk incr) = some c') :
    SbrkOk d heapStart c incr c' ∧ HeapInv L d heapStart c' := by
  obtain ⟨hincr, hfits, hframes⟩ := hP
  have hbase := h.user.trans h.le
  obtain ⟨r, hr, rfl⟩ := Option.map_eq_some_iff.mp he
  rcases sysSbrk_cases h.space hbase hincr hfits hframes with
    ⟨hnone, -⟩ | ⟨s', hs, hmapped, hspace⟩ | ⟨k, s', a', hk, -, hs, hmapped, hspace⟩
  · rw [hnone] at hr
    cases hr
  · rw [hs] at hr
    obtain rfl := Option.some.inj hr
    have hcov : Covered s'.mem d heapStart (c.heapEnd + incr) := by
      intro p hal h₁ h₂
      by_cases hp : p < c.heapEnd
      · refine h.covered.congr hspace h.user (by omega) ?_ p hal h₁ hp
        exact fun q hq hlt => hmapped.heap_walk (heapPages_inside hfits) (by omega) hq hlt
      · -- The page is one of those that the call mapped.
        obtain ⟨live, held, hinv, hlive⟩ := hspace
        obtain ⟨k, hk, rfl⟩ :
            ∃ k < heapPages c.heapEnd incr, p = heapFirst c.heapEnd + 4096 * k := by
          refine ⟨(p - heapFirst c.heapEnd) / 4096, ?_, ?_⟩
          · unfold heapPages heapFirst
            omega
          · unfold heapFirst
            omega
        obtain ⟨f, hf, hfal, -⟩ := hmapped.pages k hk
        have hperm := (entry_fields hfal (show heapPerm < 4096 by decide)).2.2
        refine hinv.userPage hlive (by omega) (by omega) hf ?_
        have heq : heapPerm ||| pteP = 7 := rfl
        show _ = 7
        omega
    refine ⟨⟨fun _ => ⟨hcov, rfl, hfits, rfl⟩, fun hret => ?_⟩, hspace, h.user, ?_, hcov⟩
    · -- A heap end of `2^32 - 1` leaves no room for an increment.
      have hend : c.heapEnd = 2 ^ 32 - 1 := hret
      show c.heapEnd + incr = c.heapEnd
      omega
    · show heapStart ≤ c.heapEnd + incr
      have hle := h.le
      omega
  · rw [hs] at hr
    obtain rfl := Option.some.inj hr
    refine ⟨⟨fun hret => absurd rfl hret, fun _ => rfl⟩, hspace, h.user, h.le, ?_⟩
    refine h.covered.congr hspace h.user (by omega) fun q hq hlt => ?_
    refine hmapped.heap_walk ?_ (by omega) hq hlt
    have hinside := heapPages_inside hfits
    omega

/-- One step of a run that meets the condition keeps the invariant. -/
theorem heapStep_inv {c c' : HeapState} {l : HeapLabel} (h : HeapInv L d heapStart c)
    (hend : c.heapEnd < 2 ^ 32) (hP : SbrkFits L d c l) (he : heapStep d c l = some c') :
    HeapInv L d heapStart c' ∧ c'.heapEnd < 2 ^ 32 := by
  cases l with
  | sbrk incr =>
    obtain ⟨hok, hinv⟩ := sbrk_step h hP he
    refine ⟨hinv, ?_⟩
    by_cases hret : c'.ret = toU32 (-1)
    · rw [hok.2 hret]
      exact hend
    · exact (hok.1 hret).2.2.1
  | others mem =>
    obtain rfl := Option.some.inj he
    refine ⟨⟨hP.1, h.user, h.le, h.covered.congr hP.1 h.user hend fun p _ hp => ?_⟩, hend⟩
    exact hP.2 _ (pdeIndex_lt (by omega)) _ (pteIndex_lt p)

/-- The heap of a task. From a state in which the heap is mapped, every call of `sys_sbrk` in a
run whose steps meet `SbrkFits` keeps its promise. -/
theorem sbrk_run {c₀ c c' : HeapState} {ls : List HeapLabel} (h : HeapInv L d heapStart c₀)
    (hend : c₀.heapEnd < 2 ^ 32)
    (hP : Meets (heapStep d) (SbrkFits L d) c₀ (ls ++ [.sbrk incr]))
    (hrun : run (heapStep d) c₀ ls = some c) (he : heapStep d c (.sbrk incr) = some c') :
    SbrkOk d heapStart c incr c' := by
  have hinv : HeapInv L d heapStart c ∧ c.heapEnd < 2 ^ 32 :=
    Trace.run_invariant (I := fun c => HeapInv L d heapStart c ∧ c.heapEnd < 2 ^ 32)
      (fun c l c' hI hl hs => heapStep_inv hI.1 hI.2 hl hs) ⟨h, hend⟩ hP.left hrun
  exact (sbrk_step hinv.1 (hP.right hrun).1 he).1

/-- A task with an empty heap at the start of the user half. -/
def emptyHeap (frames : Nat) : HeapState := ⟨oneSpace frames, 0x80000000, 0⟩

/-- The empty heap has no pages. -/
theorem emptyHeap_inv {frames : Nat} (h₁ : 1 ≤ frames) (h₂ : frames ≤ 32512) :
    HeapInv smallLayout 0x100000 0x80000000 (emptyHeap frames) where
  space := ⟨_, _, oneSpace_inv h₁ h₂, by decide⟩
  user := Nat.le_refl _
  le := Nat.le_refl _
  covered := by
    intro p hal h₁ h₂
    have hend : p < 0x80000000 := h₂
    omega

/-- With enough frames for pages that are not mapped, a call meets the condition, and the heap
grows. -/
theorem heapStep_enough {ret : Nat} (h : HeapInv L d heapStart ⟨s, heapEnd, ret⟩)
    (hincr : incr < 2 ^ 31) (hfits : heapEnd + incr < 2 ^ 32)
    (hfree : ∀ k < heapPages heapEnd incr, walk s.mem d (heapFirst heapEnd + 4096 * k) = none)
    (hframes : framesNeeded s.mem d (heapFirst heapEnd) (heapPages heapEnd incr)
      ≤ freeCount s.paddrAlloc) :
    SbrkFits L d ⟨s, heapEnd, ret⟩ (.sbrk incr) ∧ ∃ s',
      heapStep d ⟨s, heapEnd, ret⟩ (.sbrk incr) = some ⟨s', heapEnd + incr, heapEnd⟩ ∧
      RangeMapped s d (heapFirst heapEnd) (heapPages heapEnd incr) heapPerm s' := by
  have hmono : ∀ k ≤ heapPages heapEnd incr, framesNeeded s.mem d (heapFirst heapEnd) k
      ≤ framesNeeded s.mem d (heapFirst heapEnd) (heapPages heapEnd incr) := by
    intro k hk
    rcases Nat.lt_or_eq_of_le hk with hlt | rfl
    · exact (framesNeeded_lt hlt).le
    · exact Nat.le_refl _
  have hP : SbrkFits L d ⟨s, heapEnd, ret⟩ (.sbrk incr) := by
    refine ⟨hincr, hfits, fun k hk _ => ?_⟩
    exact Nat.ne_of_lt (Nat.lt_of_lt_of_le (framesNeeded_lt hk) hframes)
  refine ⟨hP, ?_⟩
  rcases sysSbrk_cases h.space (h.user.trans h.le) hincr hfits hP.2.2 with
    ⟨-, k, hk, hwalk⟩ | ⟨s', hs, hmapped, -⟩ | ⟨k, s', a', hk, hfew, -, -, -⟩
  · exact absurd (hfree k hk) hwalk
  · exact ⟨s', Option.map_eq_some_iff.mpr ⟨_, hs, rfl⟩, hmapped⟩
  · exact absurd ((hmono (k + 1) hk).trans hframes) (Nat.not_le_of_lt hfew)

/-- Three calls: the first one maps two pages and their table, the second one stays in the last
page, and the third one maps a page behind it. -/
theorem sbrk_three_calls : ∃ c c', run (heapStep 0x100000) (emptyHeap 6) [.sbrk 5000, .sbrk 100]
      = some c ∧ heapStep 0x100000 c (.sbrk 5000) = some c' ∧ c'.heapEnd = 0x80002774 ∧
    SbrkOk 0x100000 0x80000000 c 5000 c' := by
  have hinv : HeapInv smallLayout 0x100000 0x80000000 (emptyHeap 6) :=
    emptyHeap_inv (by decide) (by decide)
  -- Two pages and a table: two of the five free frames are left.
  have hneed : freeCount (oneSpace 6).paddrAlloc
      = 2 + framesNeeded (oneSpace 6).mem 0x100000 0x80000000 2 := by decide +kernel
  obtain ⟨hP₁, s₁, he₁, hr₁⟩ : SbrkFits smallLayout 0x100000 (emptyHeap 6) (.sbrk 5000) ∧ ∃ s',
      heapStep 0x100000 (emptyHeap 6) (.sbrk 5000) = some ⟨s', 0x80001388, 0x80000000⟩ ∧
      RangeMapped (oneSpace 6) 0x100000 0x80000000 2 heapPerm s' :=
    heapStep_enough hinv (by decide) (by decide) (fun k _ => walk_clear _ _)
      (hneed.symm ▸ Nat.le_add_left _ 2)
  obtain ⟨-, hinv₁⟩ := sbrk_step hinv hP₁ he₁
  have hcount₁ : freeCount s₁.paddrAlloc = 2 := Nat.add_right_cancel (hr₁.count.symm.trans hneed)
  have hfree₁ : walk s₁.mem 0x100000 0x80002000 = none :=
    hr₁.not_mapped (j := 2) (n := 3) (by decide) (by decide) (by decide) (walk_clear _ _)
  -- The second call asks for no page.
  have hpages : ∀ k, ¬ k < heapPages 0x80001388 100 := fun k => Nat.not_lt_zero k
  have hnone : framesNeeded s₁.mem 0x100000 0x80002000 0 ≤ freeCount s₁.paddrAlloc :=
    Nat.zero_le _
  obtain ⟨hP₂, s₂, he₂, hr₂⟩ :
      SbrkFits smallLayout 0x100000 ⟨s₁, 0x80001388, 0x80000000⟩ (.sbrk 100) ∧ ∃ s',
        heapStep 0x100000 ⟨s₁, 0x80001388, 0x80000000⟩ (.sbrk 100)
          = some ⟨s', 0x800013EC, 0x80001388⟩ ∧
        RangeMapped s₁ 0x100000 0x80002000 0 heapPerm s' :=
    heapStep_enough hinv₁ (by decide) (by decide : 0x80001388 + 100 < 2 ^ 32)
      (fun k hk => absurd hk (hpages k)) hnone
  obtain ⟨-, hinv₂⟩ := sbrk_step hinv₁ hP₂ he₂
  have hcount₂ : freeCount s₂.paddrAlloc = 2 := hr₂.count.symm.trans hcount₁
  have hfree₂ : walk s₂.mem 0x100000 0x80002000 = none :=
    hr₂.not_mapped (j := 0) (n := 1) (by decide) (by decide) (by decide) hfree₁
  have hone : framesNeeded s₂.mem 0x100000 0x80002000 1 ≤ freeCount s₂.paddrAlloc :=
    hcount₂ ▸ framesNeeded_le s₂.mem 0x100000 0x80002000 1
  obtain ⟨hP₃, s₃, he₃, -⟩ :
      SbrkFits smallLayout 0x100000 ⟨s₂, 0x800013EC, 0x80001388⟩ (.sbrk 5000) ∧ ∃ s',
        heapStep 0x100000 ⟨s₂, 0x800013EC, 0x80001388⟩ (.sbrk 5000)
          = some ⟨s', 0x80002774, 0x800013EC⟩ ∧
        RangeMapped s₂ 0x100000 0x80002000 1 heapPerm s' :=
    heapStep_enough hinv₂ (by decide) (by decide : 0x800013EC + 5000 < 2 ^ 32) (fun k hk => by
      obtain rfl : k = 0 := Nat.lt_one_iff.mp hk
      exact hfree₂) hone
  have hrun : run (heapStep 0x100000) (emptyHeap 6) [.sbrk 5000, .sbrk 100]
      = some ⟨s₂, 0x800013EC, 0x80001388⟩ := Trace.run_cons he₁ (Trace.run_cons he₂ rfl)
  refine ⟨_, _, hrun, he₃, rfl, sbrk_run hinv (by decide) ?_ hrun he₃⟩
  refine ⟨hP₁, fun c hc => ?_⟩
  obtain rfl := Option.some.inj (he₁.symm.trans hc)
  refine ⟨hP₂, fun c hc => ?_⟩
  obtain rfl := Option.some.inj (he₂.symm.trans hc)
  exact ⟨hP₃, fun _ _ => trivial⟩

/-- With no free frame, `sbrk(1)` returns success, and the heap is not mapped. -/
theorem sbrk_without_frames : HeapInv smallLayout 0x100000 0x80000000 (emptyHeap 1) ∧
    ∃ c', heapStep 0x100000 (emptyHeap 1) (.sbrk 1) = some c' ∧
      c'.ret = 0x80000000 ∧ ¬ SbrkOk 0x100000 0x80000000 (emptyHeap 1) 1 c' := by
  have hinv : HeapInv smallLayout 0x100000 0x80000000 (emptyHeap 1) :=
    emptyHeap_inv (by decide) (by decide)
  have hcall : sysSbrk 0x100000 (oneSpace 1) 0x80000000 (1 : Nat)
      = some (0x80000000, 0x80000001, oneSpace 1) := by
    rw [sysSbrk_eq (by decide) (by decide) (by decide), if_neg (by decide)]
    unfold memoryAllocPageFor
    rw [memoryAllocForPageDir_no_frame (oneSpace_inv (by decide) (by decide)).shape
      (by decide +kernel) (by decide) (by decide) (by decide) (by decide)]
    rfl
  refine ⟨hinv, ⟨oneSpace 1, 0x80000001, 0x80000000⟩, ?_, rfl, fun hok => ?_⟩
  · exact Option.map_eq_some_iff.mpr ⟨_, hcall, rfl⟩
  · obtain ⟨-, e, hwalk, -⟩ := (hok.1 (by decide)).1 0x80000000 (by decide) (by decide) (by decide)
    cases hwalk

end StartKernel
