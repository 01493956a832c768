import StartKernel.Proofs.Bitmap

/-!
# `StartKernel.Proofs.BitmapAlloc`: what one call of `bitmap_alloc_nbits` promises

The search looks at the first bit of a candidate run twice and at the last bit never.
`exactFirstFit_iff` says for which bitmaps it is a first fit search all the same.

The call marks the bits it hands out with `~bit`, and as a truth value this is 1 for both
values of `bit`. So the bits change only when `bit` is 0. `marksRun_iff` says when the call
marks what it hands out.
-/

set_option autoImplicit false

namespace StartKernel

open FirstFit (Fits First First.unique First.extend exists_first)

variable {b : Bitmap} {bit : Int} {count i j : Nat}

/-- The call is an exact first fit search. It returns the first run of `count` bits that
agree. When there is no such run, it returns nothing and leaves the bitmap as it is. -/
structure ExactFirstFit (b : Bitmap) (bit : Int) (count : Nat) : Prop where
  found : ∀ i, First (Agrees b bit) b.bitCount.toNat count i →
    (bitmapAllocNbits b bit count).1 = some i
  missing : (∀ i, ¬ Fits (Agrees b bit) b.bitCount.toNat count i) →
    bitmapAllocNbits b bit count = (none, b)

/-- The bit behind the first run of `count - 1` bits is inside the bitmap and agrees. -/
def RunGoesOn (b : Bitmap) (bit : Int) (count : Nat) : Prop :=
  ∀ i, First (Agrees b bit) b.bitCount.toNat (count - 1) i →
    i + count ≤ b.bitCount.toNat ∧ Agrees b bit (i + count - 1)

/-- The search is exact when the run that it finds goes on. -/
theorem RunGoesOn.exactFirstFit (hcount : 2 ≤ count) (h : RunGoesOn b bit count) :
    ExactFirstFit b bit count := by
  have hmax : max 1 (count - 1) = count - 1 := by omega
  have hcases := bitmapAllocNbits_cases b bit count (by omega)
  rw [hmax] at hcases
  rcases hcases with ⟨i, hfirst, heq⟩ | ⟨hnone, heq⟩
  · -- One more bit agrees, so the run found is the first one of `count` bits.
    obtain ⟨hin, hlast⟩ := h i hfirst
    have hrun : First (Agrees b bit) b.bitCount.toNat count i := by
      have hext := hfirst.extend (by omega) (by rwa [Nat.add_sub_assoc (by omega)] at hlast)
      rwa [Nat.sub_add_cancel (by omega)] at hext
    constructor
    · intro k hk
      rw [heq, hrun.unique hk]
    · intro hno
      exact absurd hrun.toFits (hno i)
  · -- No run of `count - 1` bits, so none of `count` bits.
    constructor
    · intro k hk
      exact absurd (hk.toFits.shorten (Nat.sub_le count 1)) (hnone k)
    · intro _
      exact heq

/-- The run that an exact search finds goes on. -/
theorem ExactFirstFit.runGoesOn (hcount : 2 ≤ count) (h : ExactFirstFit b bit count) :
    RunGoesOn b bit count := by
  intro i hi
  have hmax : max 1 (count - 1) = count - 1 := by omega
  have hcases := bitmapAllocNbits_cases b bit count (by omega)
  rw [hmax] at hcases
  rcases hcases with ⟨k, hfirst, heq⟩ | ⟨hnone, -⟩
  · have hki : k = i := hfirst.unique hi
    subst hki
    -- The call returns something, so some run of `count` bits fits, and `k` is the first.
    have hex : ∃ j, Fits (Agrees b bit) b.bitCount.toNat count j := by
      by_contra hno
      have hmiss := h.missing (fun j hj => hno ⟨j, hj⟩)
      rw [heq] at hmiss
      simp at hmiss
    obtain ⟨j, hj⟩ := exists_first hex
    have hret := h.found j hj
    rw [heq] at hret
    have hkj : k = j := Option.some.inj hret
    subst hkj
    refine ⟨hj.inside, ?_⟩
    have hlast := hj.all (count - 1) (by omega)
    rwa [← Nat.add_sub_assoc (by omega)] at hlast
  · exact absurd hi.toFits (hnone i)

/-- A search for one bit is exact. -/
theorem exactFirstFit_one (b : Bitmap) (bit : Int) : ExactFirstFit b bit 1 := by
  rcases bitmapAllocNbits_cases b bit 1 (Nat.le_refl 1) with ⟨i, hfirst, heq⟩ | ⟨hnone, heq⟩
  · constructor
    · intro k hk
      rw [heq, First.unique hfirst hk]
    · intro hno
      exact absurd hfirst.toFits (hno i)
  · constructor
    · intro k hk
      exact absurd hk.toFits (hnone k)
    · intro _
      exact heq

/-- The search is exact first fit if and only if it is for one bit or the first run of
`count - 1` bits, if there is one, goes on for one more bit. -/
theorem exactFirstFit_iff (b : Bitmap) (bit : Int) (count : Nat) (hcount : 1 ≤ count) :
    ExactFirstFit b bit count ↔ count = 1 ∨ RunGoesOn b bit count := by
  constructor
  · intro h
    rcases Nat.lt_or_ge count 2 with hlt | hge
    · exact Or.inl (by omega)
    · exact Or.inr (h.runGoesOn hge)
  · rintro (rfl | h)
    · exact exactFirstFit_one b bit
    · rcases Nat.lt_or_ge count 2 with hlt | hge
      · rw [show count = 1 by omega]
        exact exactFirstFit_one b bit
      · exact h.exactFirstFit hge

/-- Eight bits, and only the bit 1 is set. -/
def oneSet : Bitmap := ⟨8, fun _ => 0x02#8⟩

/-- A search for three zeros finds the bits from 2 on, behind which there is a fourth one. -/
theorem exactFirstFit_oneSet : RunGoesOn oneSet 0 3 ∧ ExactFirstFit oneSet 0 3 := by
  have hgoes : RunGoesOn oneSet 0 3 := by
    intro i hi
    have hfits : Fits (Agrees oneSet 0) oneSet.bitCount.toNat (3 - 1) 2 :=
      ⟨by decide, by decide⟩
    -- The bit 1 is in the way of any run before the bit 2.
    have hlow : ¬ i < 2 := by
      intro hlt
      have hone := hi.all (1 - i) (by omega)
      rw [Nat.add_sub_cancel' (by omega)] at hone
      exact absurd hone (by decide)
    have hhigh : ¬ 2 < i := fun hlt => hi.least 2 hlt hfits
    obtain rfl : i = 2 := by omega
    exact ⟨by decide, by decide⟩
  exact ⟨hgoes, (exactFirstFit_iff oneSet 0 3 (by decide)).mpr (Or.inr hgoes)⟩

/-- A search for two zeros stops at the bit 0, whose neighbour is set. -/
theorem not_exactFirstFit_oneSet :
    ¬ ∀ (b : Bitmap) (bit : Int) (count : Nat), bit = 0 ∨ bit = 1 → 1 ≤ count →
      ExactFirstFit b bit count := by
  intro h
  have hgoes := (h oneSet 0 2 (Or.inl rfl) (by decide)).runGoesOn (by decide)
  have hfirst : First (Agrees oneSet 0) oneSet.bitCount.toNat (2 - 1) 0 :=
    ⟨⟨by decide, fun j hj => by rw [show j = 0 by omega]; decide⟩, by simp⟩
  exact absurd (hgoes 0 hfirst).2 (by decide)

/-- One more call of `bitmap_alloc_nbits` with the same bit. -/
def allocAgain (bit : Int) (b : Bitmap) (count : Nat) : Bitmap := (bitmapAllocNbits b bit count).2

/-- What a call that returns `i` does to the bitmap: the bits of the run change to the other
value, no other bit changes, and no later call with the same bit returns `i`. -/
structure MarksRun (b : Bitmap) (bit : Int) (count i : Nat) (b' : Bitmap) : Prop where
  size : b'.bitCount = b.bitCount
  run : ∀ j, i ≤ j → j < i + count → (j : Int) < b.bitCount → bitmapGetBit b' j = 1 - bit
  others : ∀ j, ¬ (i ≤ j ∧ j < i + count ∧ (j : Int) < b.bitCount) →
    bitmapGetBit b' j = bitmapGetBit b j
  once : ∀ counts : List Nat, (∀ c ∈ counts, 1 ≤ c) → ∀ c, 1 ≤ c →
    (bitmapAllocNbits (counts.foldl (allocAgain bit) b') bit c).1 ≠ some i

/-- A run starts with a bit that agrees. -/
theorem agrees_first {n k : Nat} (h : Fits (Agrees b bit) n (max 1 k) i) : bitmapGetBit b i = bit :=
  h.all 0 (by omega)

/-- A run starts inside the bitmap. -/
theorem lt_bitCount {k : Nat} (h : Fits (Agrees b bit) b.bitCount.toNat (max 1 k) i) :
    (i : Int) < b.bitCount := by
  have hinside := h.inside
  omega

/-- A call for zeros clears no bit. -/
theorem allocAgain_set (hcount : 1 ≤ count) (hset : bitmapGetBit b j = 1) :
    bitmapGetBit (allocAgain 0 b count) j = 1 := by
  unfold allocAgain
  rcases bitmapAllocNbits_cases b 0 count hcount with ⟨i, -, heq⟩ | ⟨-, heq⟩
  · -- The write sets bits of the run and leaves the others alone.
    rw [heq]
    show bitmapGetBit (bitmapSetBit b i count (-0 - 1)) j = 1
    rw [bitmapGetBit_set]
    split
    · rfl
    · exact hset
  · rw [heq]
    exact hset

/-- A bit that is set stays set over any number of calls for zeros. -/
theorem allocAgain_foldl_set (counts : List Nat) (hcounts : ∀ c ∈ counts, 1 ≤ c)
    (hset : bitmapGetBit b j = 1) : bitmapGetBit (counts.foldl (allocAgain 0) b) j = 1 := by
  induction counts generalizing b with
  | nil => exact hset
  | cons c counts ih =>
    rw [List.foldl_cons]
    exact ih (fun d hd => hcounts d (List.mem_cons_of_mem c hd))
      (allocAgain_set (hcounts c List.mem_cons_self) hset)

/-- A call for zeros does not return a bit that is set. -/
theorem alloc_ne_of_set (hcount : 1 ≤ count) (hset : bitmapGetBit b i = 1) :
    (bitmapAllocNbits b 0 count).1 ≠ some i := by
  intro hret
  rcases bitmapAllocNbits_cases b 0 count hcount with ⟨k, hfirst, heq⟩ | ⟨-, heq⟩
  · -- The run would start with a zero.
    rw [heq] at hret
    have hki : k = i := Option.some.inj hret
    subst hki
    have hzero := agrees_first hfirst.toFits
    omega
  · rw [heq] at hret
    simp at hret

/-- A call for zeros marks the run that it returns. -/
theorem marksRun_zero (hcount : 1 ≤ count) {b' : Bitmap}
    (h : bitmapAllocNbits b 0 count = (some i, b')) : MarksRun b 0 count i b' := by
  rcases bitmapAllocNbits_cases b 0 count hcount with ⟨k, hfirst, heq⟩ | ⟨-, heq⟩
  · rw [heq] at h
    obtain ⟨hki, rfl⟩ := Prod.mk.inj h
    have hki : k = i := Option.some.inj hki
    subst hki
    constructor
    · exact bitmapSetBit_bitCount b k count (-0 - 1)
    · intro j hge hlt hin
      rw [bitmapGetBit_set, if_pos ⟨hge, hlt, hin⟩]
      rfl
    · intro j hj
      rw [bitmapGetBit_set, if_neg hj]
    · intro counts hcounts c hc
      -- The first bit of the run is set now, and it stays set.
      have hset : bitmapGetBit (bitmapSetBit b k count (-0 - 1)) k = 1 := by
        rw [bitmapGetBit_set, if_pos ⟨Nat.le_refl k, by omega, lt_bitCount hfirst.toFits⟩]
        rfl
      exact alloc_ne_of_set hc (allocAgain_foldl_set counts hcounts hset)
  · rw [heq] at h
    simp at h

/-- A call for ones sets the bits of the run again. -/
theorem not_marksRun_one (hcount : 1 ≤ count)
    (hfirst : First (Agrees b 1) b.bitCount.toNat (max 1 (count - 1)) i) :
    ¬ MarksRun b 1 count i (bitmapSetBit b i count (-1 - 1)) := by
  intro h
  have hin := lt_bitCount hfirst.toFits
  -- The new value `~1` is not 0, so the write sets the bits, and they should be 0 now.
  have hflip := h.run i (Nat.le_refl i) (by omega) hin
  rw [bitmapGetBit_set, if_pos ⟨Nat.le_refl i, by omega, hin⟩] at hflip
  simp at hflip

/-- A call marks what it returns if and only if it is for zeros or there is nothing to
return. -/
theorem marksRun_iff (b : Bitmap) (bit : Int) (count : Nat) (hbit : bit = 0 ∨ bit = 1)
    (hcount : 1 ≤ count) :
    (∀ i b', bitmapAllocNbits b bit count = (some i, b') → MarksRun b bit count i b') ↔
      bit = 0 ∨ ∀ i, ¬ Fits (Agrees b bit) b.bitCount.toNat (max 1 (count - 1)) i := by
  constructor
  · intro h
    rcases hbit with rfl | rfl
    · exact Or.inl rfl
    · right
      rcases bitmapAllocNbits_cases b 1 count hcount with ⟨i, hfirst, heq⟩ | ⟨hnone, -⟩
      · exact absurd (h i _ heq) (not_marksRun_one hcount hfirst)
      · exact hnone
  · rintro (rfl | hnone) i b' h
    · exact marksRun_zero hcount h
    · rcases bitmapAllocNbits_cases b bit count hcount with ⟨k, hfirst, -⟩ | ⟨-, heq⟩
      · exact absurd hfirst.toFits (hnone k)
      · rw [heq] at h
        simp at h

/-- Eight bits, all set. -/
def allSet : Bitmap := ⟨8, fun _ => 0xFF#8⟩

theorem marksRun_allSet :
    (∀ i b', bitmapAllocNbits allSet 1 1 = (some i, b') → MarksRun allSet 1 1 i b') ↔
      (1 : Int) = 0 ∨ ∀ i, ¬ Fits (Agrees allSet 1) allSet.bitCount.toNat (max 1 (1 - 1)) i :=
  marksRun_iff allSet 1 1 (Or.inr rfl) (Nat.le_refl 1)

/-- A call for a one gives out the bit 0 and leaves it set. -/
theorem not_marksRun_allSet :
    ¬ ∀ (b : Bitmap) (bit : Int) (count : Nat), bit = 0 ∨ bit = 1 → 1 ≤ count →
      ∀ i b', bitmapAllocNbits b bit count = (some i, b') → MarksRun b bit count i b' := by
  intro h
  have hone : ∀ j, j < 8 → Agrees allSet 1 j := by decide
  rcases bitmapAllocNbits_cases allSet 1 1 (Nat.le_refl 1) with ⟨i, hfirst, heq⟩ | ⟨hnone, -⟩
  · exact not_marksRun_one (Nat.le_refl 1) hfirst (h allSet 1 1 (Or.inr rfl) (by decide) i _ heq)
  · exact hnone 0 ⟨by decide, fun j hj => hone (0 + j) (by omega)⟩

end StartKernel
