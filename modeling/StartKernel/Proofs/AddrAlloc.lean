import StartKernel.Core.AddrAlloc
import StartKernel.Lib.Ranges
import StartKernel.Lib.Trace
import StartKernel.Proofs.Bitmap

/-!
# `StartKernel.Proofs.AddrAlloc`: the page ranges that the allocator hands out

`RangesOk` says what the allocator is for: the ranges handed out and not yet freed are
disjoint, lie in the managed range, and their pages are exactly the set bits.

The search of `bitmap_alloc_nbits` looks at one bit less than it takes, so an allocation of
two pages or more can take a page that is in use or outside. `AllocFits` says that it does
not: the page behind the first free run of `page_count - 1` pages is free as well.

* `rangesOk_alloc`: an allocation keeps the property exactly when it fits.
* `rangesOk_free`: giving back a range keeps the property.
* `rangesOk_run_iff`: in a run from a fresh allocator, the property holds in every state
  exactly when every allocation fits.
* `alloc_two_pages`: three calls after which two ranges share a page.
-/

set_option autoImplicit false

namespace StartKernel

open FirstFit (Fits First)
open Ranges (Tiles Covers)

/-- The ranges handed out and not yet freed: an address and a number of pages each. They
consist of whole pages of the managed range, they are disjoint, and the set bits are exactly
their pages. -/
structure RangesOk (a : AddrAlloc) (held : List (Nat × Nat)) : Prop where
  aligned : ∀ r ∈ held, ∃ i, r.1 = a.start + i * a.pageSize
  disjoint : held.Pairwise fun r r' =>
    r.1 + r.2 * a.pageSize ≤ r'.1 ∨ r'.1 + r'.2 * a.pageSize ≤ r.1
  inside : ∀ r ∈ held, a.start ≤ r.1 ∧ r.1 + r.2 * a.pageSize ≤ a.start + a.size
  exact : ∀ i : Nat, (i : Int) < a.bitmap.bitCount →
    (bitmapGetBit a.bitmap i = 1 ↔ ∃ r ∈ held,
      r.1 ≤ a.start + i * a.pageSize ∧ a.start + i * a.pageSize < r.1 + r.2 * a.pageSize)

/-- The shape of an allocator as `addr_alloc_init` sets it up. -/
structure AllocShape (a : AddrAlloc) : Prop where
  pageSize : 0 < a.pageSize
  start : 0 < a.start
  fits : a.start + a.size ≤ 2 ^ 32
  bitCount : a.bitmap.bitCount ≤ 0 ∨ (a.bitmap.bitCount.toNat * a.pageSize = a.size)

/-- The managed range has one page for each bit, and it ends at `2^32` at most. -/
structure WholePages (a : AddrAlloc) : Prop where
  pageSize : 0 < a.pageSize
  fits : a.start + a.size ≤ 2 ^ 32
  whole : a.bitmap.bitCount.toNat * a.pageSize = a.size

section Index

variable {a : AddrAlloc} {rs : List (Nat × Nat)} {i k n j : Nat}

/-- The bit of the page is set. -/
def Used (a : AddrAlloc) (i : Nat) : Prop := bitmapGetBit a.bitmap i = 1

/-- The number of pages of the allocator. -/
def AddrAlloc.pages (a : AddrAlloc) : Nat := a.bitmap.bitCount.toNat

/-- A page has a bit below the bit count. -/
theorem lt_pages_iff : i < a.pages ↔ (i : Int) < a.bitmap.bitCount := by
  unfold AddrAlloc.pages
  omega

/-- The addresses of a range of page numbers. -/
def AddrAlloc.range (a : AddrAlloc) (r : Nat × Nat) : Nat × Nat :=
  (a.start + r.1 * a.pageSize, r.2)

/-- Ranges of page numbers and the same ranges as addresses. -/
theorem rangesOk_map (h : AllocShape a) (hpages : 0 < a.pages) :
    RangesOk a (rs.map a.range) ↔ Tiles (Used a) a.pages rs := by
  have hps := h.pageSize
  have hle : ∀ x y : Nat, x * a.pageSize ≤ y * a.pageSize ↔ x ≤ y :=
    fun x y => Nat.mul_le_mul_right_iff hps
  -- Each clause about addresses is the clause about page numbers, scaled by the page size.
  have hsize : a.size = a.pages * a.pageSize := by
    rcases h.bitCount with hb | hb
    · unfold AddrAlloc.pages at hpages
      omega
    · exact hb.symm
  have hcov : ∀ (r : Nat × Nat) (i : Nat),
      ((a.range r).1 ≤ a.start + i * a.pageSize ∧
        a.start + i * a.pageSize < (a.range r).1 + (a.range r).2 * a.pageSize) ↔
      Covers r i := by
    intro r i
    unfold Covers
    have h₁ := hle r.1 i
    have h₂ := hle (r.1 + r.2) i
    simp only [AddrAlloc.range]
    rw [Nat.add_mul] at h₂
    omega
  have hdis : ∀ r r' : Nat × Nat,
      ((a.range r).1 + (a.range r).2 * a.pageSize ≤ (a.range r').1 ∨
        (a.range r').1 + (a.range r').2 * a.pageSize ≤ (a.range r).1) ↔
      Ranges.Disjoint r r' := by
    intro r r'
    have h₁ := hle (r.1 + r.2) r'.1
    have h₂ := hle (r'.1 + r'.2) r.1
    unfold Ranges.Disjoint
    simp only [AddrAlloc.range]
    rw [Nat.add_mul] at h₁ h₂
    omega
  have hin : ∀ r : Nat × Nat, (a.start ≤ (a.range r).1 ∧
      (a.range r).1 + (a.range r).2 * a.pageSize ≤ a.start + a.size) ↔ r.1 + r.2 ≤ a.pages := by
    intro r
    have h₁ := hle (r.1 + r.2) a.pages
    simp only [AddrAlloc.range, hsize]
    rw [Nat.add_mul] at h₁
    omega
  constructor
  · intro hok
    refine ⟨?_, fun r hr => (hin r).mp (hok.inside _ (List.mem_map_of_mem hr)), fun j hj => ?_⟩
    · have hp := hok.disjoint
      rw [List.pairwise_map] at hp
      exact hp.imp fun {r r'} hd => (hdis r r').mp hd
    · rw [Used, hok.exact j (lt_pages_iff.mp hj)]
      simp only [List.mem_map, exists_exists_and_eq_and, hcov]
  · intro ht
    refine ⟨fun r hr => ?_, ?_, fun r hr => ?_, fun j hj => ?_⟩
    · obtain ⟨r, -, rfl⟩ := List.mem_map.mp hr
      exact ⟨r.1, rfl⟩
    · rw [List.pairwise_map]
      exact ht.disjoint.imp fun {r r'} hd => (hdis r r').mpr hd
    · obtain ⟨r', hr', rfl⟩ := List.mem_map.mp hr
      exact (hin r').mpr (ht.inside r' hr')
    · simp only [List.mem_map, exists_exists_and_eq_and, hcov]
      exact ht.exact j (lt_pages_iff.mpr hj)

/-- Aligned addresses are the addresses of page numbers. -/
theorem RangesOk.exists_map {held : List (Nat × Nat)} (h : RangesOk a held) :
    ∃ rs : List (Nat × Nat), held = rs.map a.range := by
  have hal := h.aligned
  clear h
  induction held with
  | nil => exact ⟨[], rfl⟩
  | cons r held ih =>
    obtain ⟨rs, hrs⟩ := ih fun r' hr' => hal r' (by simp [hr'])
    obtain ⟨i, hi⟩ := hal r (by simp)
    exact ⟨(i, r.2) :: rs, by simp [AddrAlloc.range, hrs, ← hi]⟩

end Index

/-! ### One call -/

section Call

variable {a : AddrAlloc} {held : List (Nat × Nat)} {rs : List (Nat × Nat)}
  {addr i j n pageCount : Nat}

/-- The allocation of `page_count` pages fits: it is one page, or the page behind the first
free run of `page_count - 1` pages is a free page of the allocator. -/
def AllocFits (a : AddrAlloc) (pageCount : Nat) : Prop :=
  pageCount ≤ 1 ∨
  ∀ i, First (Agrees a.bitmap 0) a.pages (pageCount - 1) i →
    i + pageCount ≤ a.pages ∧ bitmapGetBit a.bitmap (i + (pageCount - 1)) = 0

/-- A free page is one that is not used. -/
theorem agrees_zero_iff : Agrees a.bitmap 0 j ↔ ¬ Used a j := by
  unfold Agrees Used
  rcases bitmapGetBit_cases a.bitmap j with h | h <;> simp [h]

/-- The two outcomes of `addr_alloc_page`: the address of the first run that the search
accepts, with the bits set from there, or 0 with nothing changed. -/
theorem addrAllocPage_cases (h : AllocShape a) (hn : 1 ≤ pageCount) :
    (∃ i, First (Agrees a.bitmap 0) a.pages (max 1 (pageCount - 1)) i ∧
      addrAllocPage a pageCount = (a.start + i * a.pageSize,
        { a with bitmap := bitmapSetBit a.bitmap i pageCount (-1) })) ∨
    ((∀ i, ¬ Fits (Agrees a.bitmap 0) a.pages (max 1 (pageCount - 1)) i) ∧
      addrAllocPage a pageCount = (0, a)) := by
  unfold addrAllocPage
  rcases bitmapAllocNbits_cases a.bitmap 0 pageCount hn with ⟨i, hi, he⟩ | ⟨hno, he⟩
  · left
    refine ⟨i, hi, ?_⟩
    have hin := hi.inside
    have hlt : i < a.pages := by
      unfold AddrAlloc.pages
      omega
    -- The address lies inside the managed range, so its computation does not wrap.
    have hsize : a.pages * a.pageSize ≤ a.size := by
      unfold AddrAlloc.pages at hlt ⊢
      rcases h.bitCount with hb | hb <;> omega
    have hmul : (i + 1) * a.pageSize ≤ a.pages * a.pageSize := Nat.mul_le_mul_right _ hlt
    have hps := h.pageSize
    have hfits := h.fits
    rw [Nat.add_mul] at hmul
    rw [he]
    simp only
    rw [Nat.mod_eq_of_lt (by omega)]
    rfl
  · right
    rw [he]
    exact ⟨hno, rfl⟩

/-- The bits after pages were taken. -/
theorem used_set_iff (hj : j < a.pages) :
    Used { a with bitmap := bitmapSetBit a.bitmap i n (-1) } j ↔ Used a j ∨ Covers (i, n) j := by
  have hlt := lt_pages_iff.mp hj
  unfold Used Covers
  simp only [bitmapGetBit_set, hlt, and_true]
  split
  · rename_i hc
    simp [hc.1, hc.2]
  · rename_i hc
    simp only [hc, or_false]

/-- The bits after pages were freed. -/
theorem used_clear_iff (hj : j < a.pages) :
    Used { a with bitmap := bitmapSetBit a.bitmap i n 0 } j ↔ Used a j ∧ ¬ Covers (i, n) j := by
  have hlt := lt_pages_iff.mp hj
  unfold Used Covers
  simp only [bitmapGetBit_set, hlt, and_true]
  split
  · rename_i hc
    simp [hc.1, hc.2]
  · rename_i hc
    simp only [hc, not_false_eq_true, and_true]

theorem AllocShape.setBit (h : AllocShape a) (i n : Nat) (bit : Int) :
    AllocShape { a with bitmap := bitmapSetBit a.bitmap i n bit } :=
  ⟨h.pageSize, h.start, h.fits, by simpa using h.bitCount⟩

/-- Changed bits do not change the number of pages. -/
theorem pages_setBit (a : AddrAlloc) (i n : Nat) (bit : Int) :
    ({ a with bitmap := bitmapSetBit a.bitmap i n bit } : AddrAlloc).pages = a.pages := by
  simp [AddrAlloc.pages]

/-- The ranges that are held after an allocation. -/
def heldAfter (held : List (Nat × Nat)) (addr pageCount : Nat) : List (Nat × Nat) :=
  if addr ≠ 0 then (addr, pageCount) :: held else held

/-- The run that the search accepts is unused. -/
theorem not_used_of_first {n m i j : Nat} (hi : First (Agrees a.bitmap 0) n m i)
    (hj : Covers (i, m) j) : ¬ Used a j := by
  unfold Covers at hj
  have hagrees := hi.all (j - i) (by omega)
  rw [show i + (j - i) = j by omega] at hagrees
  exact agrees_zero_iff.mp hagrees

/-- An allocation keeps the property of the ranges exactly when it fits. -/
theorem rangesOk_alloc (h : AllocShape a) (hok : RangesOk a held) (hpos : ∀ r ∈ held, 1 ≤ r.2)
    (hn : 1 ≤ pageCount) :
    RangesOk (addrAllocPage a pageCount).2
      (heldAfter held (addrAllocPage a pageCount).1 pageCount) ↔ AllocFits a pageCount := by
  rcases addrAllocPage_cases h hn with ⟨i, hi, he⟩ | ⟨hno, he⟩
  · have hpages : 0 < a.pages := by
      have := hi.inside
      omega
    obtain ⟨rs, rfl⟩ := hok.exists_map
    have htiles := (rangesOk_map h hpages).mp hok
    have hpos' : ∀ r ∈ rs, 1 ≤ r.2 := fun r hr => hpos (a.range r) (List.mem_map_of_mem hr)
    have hne : a.start + i * a.pageSize ≠ 0 := by
      have := h.start
      omega
    have hheld : heldAfter (rs.map a.range) (a.start + i * a.pageSize) pageCount
        = ((i, pageCount) :: rs).map a.range := if_pos hne
    rw [he]
    simp only [hheld]
    refine (rangesOk_map (h.setBit i pageCount (-1)) (by rwa [pages_setBit])).trans ?_
    rw [pages_setBit]
    constructor
    · -- The search looks at one page less than it takes, so the last page is the question.
      intro ht
      obtain ⟨hin, hfree⟩ := htiles.of_cons ht
      by_cases h1 : pageCount ≤ 1
      · exact Or.inl h1
      refine Or.inr fun i' hi' => ?_
      rw [show max 1 (pageCount - 1) = pageCount - 1 by omega] at hi
      obtain rfl : i' = i := hi'.unique hi
      exact ⟨hin, agrees_zero_iff.mpr (hfree _ ⟨by simp, by simp; omega⟩)⟩
    · intro hfits
      have hrun : i + pageCount ≤ a.pages ∧ ∀ j, Covers (i, pageCount) j → ¬ Used a j := by
        by_cases h1 : pageCount = 1
        · subst h1
          exact ⟨hi.inside, fun j hj => not_used_of_first hi hj⟩
        · rw [show max 1 (pageCount - 1) = pageCount - 1 by omega] at hi
          obtain ⟨hin, hbit⟩ := hfits.resolve_left (by omega) i hi
          refine ⟨hin, fun j hj => ?_⟩
          unfold Covers at hj
          by_cases hjl : j = i + (pageCount - 1)
          · rw [hjl]
            exact agrees_zero_iff.mp hbit
          · exact not_used_of_first hi ⟨hj.1, by simp only; omega⟩
      exact htiles.cons hpos' hn hrun.1 hrun.2 fun j hj => used_set_iff hj
  · rw [he]
    simp only [heldAfter, ne_eq, not_true_eq_false, if_false]
    refine ⟨fun _ => ?_, fun _ => hok⟩
    by_cases h1 : pageCount ≤ 1
    · exact Or.inl h1
    · rw [show max 1 (pageCount - 1) = pageCount - 1 by omega] at hno
      exact Or.inr fun i hi => absurd hi.toFits (hno i)

/-- An address from the start on is given back by its page. -/
theorem addrFreePage_above (hlow : a.start ≤ addr) (haddr : addr < a.start + 2 ^ 32) :
    addrFreePage a addr pageCount
      = { a with bitmap := bitmapSetBit a.bitmap ((addr - a.start) / a.pageSize) pageCount 0 } := by
  have hsub : toU32 ((addr : Int) - a.start) = addr - a.start := by
    rw [← Int.ofNat_sub hlow, toU32_natCast (by omega)]
  rw [addrFreePage, hsub]

/-- An address outside of the managed range has no bit, also when it lies below the start, where
the subtraction wraps around. -/
theorem addrFreePage_outside (h : WholePages a) (haddr : addr < 2 ^ 32)
    (hout : addr < a.start ∨ a.start + a.size ≤ addr) : addrFreePage a addr pageCount = a := by
  have hfits := h.fits
  -- The distance from the start is at least the size in both cases.
  have hfar : a.size ≤ toU32 ((addr : Int) - a.start) := by
    rcases hout with hlow | hhigh
    · have hwrap : ((addr : Int) - a.start) % 2 ^ 32 = addr - a.start + 2 ^ 32 := by omega
      rw [toU32, hwrap]
      omega
    · rw [← Int.ofNat_sub (by omega), toU32_natCast (by omega)]
      omega
  have hindex : a.bitmap.bitCount ≤ (toU32 ((addr : Int) - a.start) / a.pageSize : Nat) := by
    have hle : a.bitmap.bitCount.toNat ≤ toU32 ((addr : Int) - a.start) / a.pageSize := by
      rw [Nat.le_div_iff_mul_le h.pageSize, h.whole]
      exact hfar
    omega
  rw [addrFreePage, bitmapSetBit_outside hindex]

/-- Giving back a held range keeps the property of the ranges. -/
theorem rangesOk_free (h : AllocShape a) (hpages : 0 < a.pages) (hok : RangesOk a held)
    {r : Nat × Nat} (hr : r ∈ held) :
    RangesOk (addrFreePage a r.1 r.2) (held.erase r) := by
  obtain ⟨rs, rfl⟩ := hok.exists_map
  have htiles := (rangesOk_map h hpages).mp hok
  obtain ⟨⟨i, n⟩, hin, rfl⟩ := List.mem_map.mp hr
  have hps := h.pageSize
  have hinj : Function.Injective a.range := by
    rintro ⟨x, k⟩ ⟨y, l⟩ he
    simp only [AddrAlloc.range, Prod.mk.injEq] at he
    have hx : x * a.pageSize = y * a.pageSize := by omega
    rw [Nat.eq_of_mul_eq_mul_right hps hx, he.2]
  -- The page number that `addr_free_page` computes is the one of the range.
  have hfree : addrFreePage a (a.range (i, n)).1 (a.range (i, n)).2
      = { a with bitmap := bitmapSetBit a.bitmap i n 0 } := by
    obtain ⟨hlow, hhigh⟩ := hok.inside _ hr
    have hfits := h.fits
    have hstart := h.start
    rw [addrFreePage_above hlow (by omega)]
    simp only [AddrAlloc.range]
    rw [Nat.add_sub_cancel_left, Nat.mul_div_cancel i hps]
  rw [hfree, ← List.map_erase hinj]
  refine (rangesOk_map (h.setBit i n 0) (by rwa [pages_setBit])).mpr ?_
  rw [pages_setBit]
  exact htiles.erase hin fun j hj => used_clear_iff hj

end Call

/-! ### Runs -/

/-- An allocator with the ranges it handed out. -/
structure AllocState where
  alloc : AddrAlloc
  held : List (Nat × Nat)

/-- A call of the allocator. -/
inductive AllocCall where
  | alloc (pageCount : Nat)
  | free (addr pageCount : Nat)
  deriving DecidableEq

/-- One call: an allocation of at least one page, or the return of a range that is held. -/
def allocStep (c : AllocState) : AllocCall → Option AllocState
  | .alloc pageCount =>
    if 1 ≤ pageCount then
      some ⟨(addrAllocPage c.alloc pageCount).2,
        heldAfter c.held (addrAllocPage c.alloc pageCount).1 pageCount⟩
    else none
  | .free addr pageCount =>
    if (addr, pageCount) ∈ c.held then
      some ⟨addrFreePage c.alloc addr pageCount, c.held.erase (addr, pageCount)⟩
    else none

/-- The state of a fresh allocator. -/
def allocStart (bits : Nat → BitVec 8) (start size pageSize : Nat) : AllocState :=
  ⟨addrAllocInit bits start size pageSize, []⟩

/-- Every allocation of a run fits. -/
def CallFits (c : AllocState) : AllocCall → Prop
  | .alloc pageCount => AllocFits c.alloc pageCount
  | .free _ _ => True

/-- What every call keeps: the shape of the allocator, and ranges that are not empty. An
allocator without pages hands out nothing. -/
structure AllocInv (c : AllocState) : Prop where
  shape : AllocShape c.alloc
  pos : ∀ r ∈ c.held, 1 ≤ r.2
  pages : c.held ≠ [] → 0 < c.alloc.pages

section Run

variable {c c' : AllocState} {l : AllocCall} {ls : List AllocCall}
  {start size pageSize : Nat}

/-- What an allocator becomes keeps its shape and its number of pages. -/
theorem addrAllocPage_shape {a : AddrAlloc} (h : AllocShape a) {pageCount : Nat}
    (hn : 1 ≤ pageCount) : AllocShape (addrAllocPage a pageCount).2 ∧
      (addrAllocPage a pageCount).2.pages = a.pages := by
  rcases addrAllocPage_cases h hn with ⟨i, -, he⟩ | ⟨-, he⟩
  · rw [he]
    exact ⟨h.setBit i pageCount (-1), pages_setBit a i pageCount (-1)⟩
  · rw [he]
    exact ⟨h, rfl⟩

/-- What a call does: it takes at least one page, or it gives back a range that is held. -/
theorem allocStep_cases (h : allocStep c l = some c') :
    (∃ pageCount, l = .alloc pageCount ∧ 1 ≤ pageCount ∧
      c' = ⟨(addrAllocPage c.alloc pageCount).2,
        heldAfter c.held (addrAllocPage c.alloc pageCount).1 pageCount⟩) ∨
    (∃ addr pageCount, l = .free addr pageCount ∧ (addr, pageCount) ∈ c.held ∧
      c' = ⟨addrFreePage c.alloc addr pageCount, c.held.erase (addr, pageCount)⟩) := by
  cases l with
  | alloc pageCount =>
    rw [allocStep] at h
    split at h
    · rename_i hn
      exact Or.inl ⟨pageCount, rfl, hn, (Option.some.inj h).symm⟩
    · cases h
  | free addr pageCount =>
    rw [allocStep] at h
    split at h
    · rename_i hm
      exact Or.inr ⟨addr, pageCount, rfl, hm, (Option.some.inj h).symm⟩
    · cases h

/-- A range that is held after an allocation is not empty. A failed allocation adds no range. -/
theorem heldAfter_pos {held : List (Nat × Nat)} {addr pageCount : Nat} (hpos : ∀ r ∈ held, 1 ≤ r.2)
    (hn : 1 ≤ pageCount) : ∀ r ∈ heldAfter held addr pageCount, 1 ≤ r.2 := by
  intro r hr
  rw [heldAfter] at hr
  split at hr
  · rcases List.mem_cons.mp hr with rfl | hr
    · exact hn
    · exact hpos r hr
  · exact hpos r hr

theorem AllocInv.step (h : AllocInv c) (hstep : allocStep c l = some c') : AllocInv c' := by
  rcases allocStep_cases hstep with
    ⟨pageCount, rfl, hn, rfl⟩ | ⟨addr, pageCount, rfl, hm, rfl⟩
  · obtain ⟨hshape, hpages⟩ := addrAllocPage_shape h.shape hn
    refine ⟨hshape, heldAfter_pos h.pos hn, fun hne => ?_⟩
    rw [hpages]
    rcases addrAllocPage_cases h.shape hn with ⟨i, hi, -⟩ | ⟨-, he⟩
    · have hinside := hi.inside
      omega
    · rw [he] at hne
      exact h.pages hne
  · refine ⟨h.shape.setBit _ _ _, fun r hr => h.pos r (List.mem_of_mem_erase hr), fun _ => ?_⟩
    rw [addrFreePage, pages_setBit]
    exact h.pages (List.ne_nil_of_mem hm)

/-- One call keeps the property of the ranges exactly when it fits. -/
theorem rangesOk_step (h : AllocInv c) (hok : RangesOk c.alloc c.held)
    (hstep : allocStep c l = some c') : RangesOk c'.alloc c'.held ↔ CallFits c l := by
  rcases allocStep_cases hstep with
    ⟨pageCount, rfl, hn, rfl⟩ | ⟨addr, pageCount, rfl, hm, rfl⟩
  · exact rangesOk_alloc h.shape hok h.pos hn
  · refine iff_of_true ?_ trivial
    exact rangesOk_free h.shape (h.pages (List.ne_nil_of_mem hm)) hok hm

/-- A call that cannot happen fits. -/
theorem callFits_of_none (hstep : allocStep c l = none) : CallFits c l := by
  cases l with
  | alloc pageCount =>
    simp only [allocStep] at hstep
    split at hstep
    · cases hstep
    · exact Or.inl (by omega)
  | free addr pageCount => trivial

/-- The bits of a fresh allocator are clear. -/
theorem bitmapInit_getBit (bits : Nat → BitVec 8) (count : Int) {i : Nat} (hi : (i : Int) < count) :
    bitmapGetBit (bitmapInit bits count 0) i = 0 := by
  rw [bitmapGetBit_eq, bitmapInit_bit bits 0 hi]
  rfl

/-- A fresh allocator has its shape and hands out nothing yet. -/
theorem allocStart_inv (bits : Nat → BitVec 8) (hps : 0 < pageSize) (hstart : 0 < start)
    (hdvd : pageSize ∣ size) (hfits : start + size ≤ 2 ^ 32) :
    AllocInv (allocStart bits start size pageSize) ∧
      RangesOk (allocStart bits start size pageSize).alloc [] := by
  have hdiv : size / pageSize < 2 ^ 32 := lt_of_le_of_lt (Nat.div_le_self _ _) (by omega)
  refine ⟨⟨⟨hps, hstart, hfits, ?_⟩, by simp [allocStart], by simp [allocStart]⟩, by simp,
    List.Pairwise.nil, by simp, fun i hi => ?_⟩
  · -- A bit count from `2^31` on is negative as an `int`.
    simp only [allocStart, addrAllocInit, bitmapInit]
    have hcount : size / pageSize * pageSize = size := Nat.div_mul_cancel hdvd
    generalize size / pageSize = count at hdiv hcount ⊢
    by_cases hlt : count < 2 ^ 31
    · right
      rw [toInt_of_fits (by omega) (by omega), Int.toNat_natCast]
      exact hcount
    · left
      rw [toInt_of_wraps (by omega) (by omega)]
      omega
  · simp only [allocStart, addrAllocInit] at hi ⊢
    rw [bitmapInit_getBit bits _ (by simpa only [bitmapInit] using hi)]
    simp

/-- In a run from a fresh allocator, the ranges handed out are disjoint, inside and exactly
the set bits in every state, if and only if every allocation fits. -/
theorem rangesOk_run_iff (bits : Nat → BitVec 8) {ls : List AllocCall} (hps : 0 < pageSize)
    (hstart : 0 < start) (hdvd : pageSize ∣ size) (hfits : start + size ≤ 2 ^ 32) :
    (∀ ls', ls' <+: ls → ∀ c, Trace.run allocStep (allocStart bits start size pageSize) ls'
      = some c → RangesOk c.alloc c.held) ↔
    Trace.Meets allocStep CallFits (allocStart bits start size pageSize) ls := by
  obtain ⟨hinv, hok⟩ := allocStart_inv bits hps hstart hdvd hfits
  have hkeep : ∀ ls' c, Trace.run allocStep (allocStart bits start size pageSize) ls' = some c →
      AllocInv c := fun ls' c hrun =>
    Trace.run_invariant (P := fun _ _ => True) (fun _ _ _ hI _ hs => hI.step hs) hinv
      (Trace.meets_of_forall (Q := fun _ => True) fun _ _ => trivial) hrun
  rw [← Trace.meets_iff (I := fun c => AllocInv c ∧ RangesOk c.alloc c.held)
    (fun c l c' hI hs => ?_) (fun _ _ => callFits_of_none) ⟨hinv, hok⟩]
  · exact ⟨fun h ls' hp c hr => ⟨hkeep ls' c hr, h ls' hp c hr⟩, fun h ls' hp c hr =>
      (h ls' hp c hr).2⟩
  · exact ⟨fun h => (rangesOk_step hI.1 hI.2 hs).mp h.2,
      fun h => ⟨hI.1.step hs, (rangesOk_step hI.1 hI.2 hs).mpr h⟩⟩

/-- Two pages of an allocator of four, taken, given back and taken together again. -/
theorem rangesOk_run_four_pages :
    (∀ ls', ls' <+: [.alloc 1, .alloc 1, .free 4096 1, .alloc 1, .alloc 2] → ∀ c,
      Trace.run allocStep (allocStart (fun _ => 0#8) 4096 16384 4096) ls' = some c →
        RangesOk c.alloc c.held) ↔
    Trace.Meets allocStep CallFits (allocStart (fun _ => 0#8) 4096 16384 4096)
      [.alloc 1, .alloc 1, .free 4096 1, .alloc 1, .alloc 2] :=
  rangesOk_run_iff _ (by decide) (by decide) (by decide) (by decide)

/-- The second page of an allocator of two pages is in use, and two pages are handed out
from the first one on. -/
theorem alloc_two_pages :
    ∃ c, Trace.run allocStep (allocStart (fun _ => 0#8) 4096 8192 4096)
        [.alloc 1, .alloc 1, .free 4096 1, .alloc 2] = some c ∧
      ¬ RangesOk c.alloc c.held := by
  have hrun : (Trace.run allocStep (allocStart (fun _ => 0#8) 4096 8192 4096)
      [.alloc 1, .alloc 1, .free 4096 1, .alloc 2]).map (fun c => c.held)
        = some [(4096, 2), (8192, 1)] := by
    decide +kernel
  obtain ⟨c, hc, hheld⟩ := Option.map_eq_some_iff.mp hrun
  have hps : (Trace.run allocStep (allocStart (fun _ => 0#8) 4096 8192 4096)
      [.alloc 1, .alloc 1, .free 4096 1, .alloc 2]).map (fun c => c.alloc.pageSize)
        = some 4096 := by
    decide +kernel
  have hps' : c.alloc.pageSize = 4096 := by simpa [hc] using hps
  refine ⟨c, hc, fun h => ?_⟩
  have hd := h.disjoint
  rw [hheld, hps'] at hd
  simp at hd

end Run

end StartKernel
