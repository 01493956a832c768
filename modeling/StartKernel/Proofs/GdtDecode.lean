import StartKernel.Proofs.TssInit

/-!
# `StartKernel.Proofs.GdtDecode`: what the processor reads from a segment descriptor

`segment_desc_set` scatters a base and a limit over five fields, and a limit of more than 20
bits is stored in pages.

* `limit_pieces`, `nibble_of_attr`: the limit comes back from its two pieces, and the piece next to
  the attributes does not mix with them.
* `pages_or_mask`: a limit that was stored in pages.
* `segmentDescSet_decodes`: base, limit and attributes are read back.
-/

set_option autoImplicit false

namespace StartKernel

open Function (update)

variable {gdt : Gdt} {attr base limit n : Nat}

/-- The two pieces of a limit of 20 bits. -/
theorem limit_pieces (h : limit < 2 ^ 20) :
    (limit &&& 0xFFFF) + 2 ^ 16 * ((limit >>> 16) &&& 0xF) = limit := by
  rw [show (0xFFFF : Nat) = 2 ^ 16 - 1 by rfl, show (0xF : Nat) = 2 ^ 4 - 1 by rfl,
    Nat.and_two_pow_sub_one_eq_mod, Nat.and_two_pow_sub_one_eq_mod, Nat.shiftRight_eq_div_pow]
  omega

/-- The high piece of a limit is four bits. -/
theorem high_piece_lt (limit : Nat) : (limit >>> 16) &&& 0xF < 16 :=
  Nat.and_lt_two_pow (limit >>> 16) (n := 4) (by decide)

/-- The bits 8 to 11 are read back, when they were clear in the attributes. -/
theorem nibble_of_attr (hclear : attr &&& 0xF00 = 0) (hn : n < 16) :
    ((attr ||| n <<< 8) >>> 8) &&& 0xF = n := by
  have hnone : (attr >>> 8) &&& 0xF = 0 := by
    have hshift : (attr &&& 0xF00) >>> 8 = (attr >>> 8) &&& 0xF := Nat.shiftRight_and_distrib
    rw [← hshift, hclear, Nat.zero_shiftRight]
  rw [Nat.shiftRight_or_distrib, Nat.and_or_distrib_right, hnone, Nat.zero_or,
    Nat.shiftLeft_shiftRight]
  exact Nat.and_two_pow_sub_one_of_lt_two_pow (n := 4) hn

/-- A value in the bits 8 to 11 is not seen by the other bits of the attributes. -/
theorem attr_apart (attr : Nat) (hn : n < 16) {mask : Nat} (hmask : mask &&& 0xF00 = 0) :
    (attr ||| n <<< 8) &&& mask = attr &&& mask := by
  have hin : n <<< 8 &&& 0xF00 = n <<< 8 := by
    have hall : ∀ n < 16, n <<< 8 &&& 0xF00 = n <<< 8 := by decide
    exact hall n hn
  have hnone : n <<< 8 &&& mask = 0 := by
    rw [← hin, Nat.and_assoc, Nat.and_comm 0xF00, hmask, Nat.and_zero]
  rw [Nat.and_or_distrib_right, hnone, Nat.or_zero]

/-- The bit 15 as a mask. -/
theorem testBit_15 (x : Nat) : x.testBit 15 = decide (x &&& 0x8000 ≠ 0) := by
  rw [show (0x8000 : Nat) = 2 ^ 15 by rfl, Nat.and_two_pow]
  cases x.testBit 15 <;> rfl

/-- A limit that was stored in pages comes back with its low twelve bits set. -/
theorem pages_or_mask (limit : Nat) : ((limit / 0x1000) <<< 12) ||| 0xFFF = limit ||| 0xFFF := by
  apply Nat.eq_of_testBit_eq
  intro i
  rw [show (0x1000 : Nat) = 2 ^ 12 by rfl, show (0xFFF : Nat) = 2 ^ 12 - 1 by rfl,
    Nat.testBit_or, Nat.testBit_or, Nat.testBit_shiftLeft, Nat.testBit_div_two_pow,
    Nat.testBit_two_pow_sub_one]
  by_cases hi : i < 12
  · -- A bit inside of a page is set on both sides.
    simp [hi]
  · have hadd : i - 12 + 12 = i := by omega
    simp [hi, hadd, Nat.le_of_not_lt hi]

/-- The attributes that `segment_desc_set` starts from, and the limit in its unit. -/
def descUnits (limit attr : Nat) : Nat × Nat :=
  if limit > 0xFFFFF then (attr ||| 0x8000, limit / 0x1000) else (attr, limit)

/-- What `segment_desc_set` writes. -/
theorem segmentDescSet_entry (gdt : Gdt) (selector : Int) (base limit attr : Nat) :
    ∃ d, segmentDescSet gdt selector base limit attr = update gdt (selIndex selector) d ∧
      d.base = (base &&& 0xFFFF) + 2 ^ 16 * ((base >>> 16) &&& 0xFF)
        + 2 ^ 24 * ((base >>> 24) &&& 0xFF) ∧
      d.limit15_0 = (descUnits limit attr).2 &&& 0xFFFF ∧
      d.attr = (descUnits limit attr).1 ||| (((descUnits limit attr).2 >>> 16) &&& 0xF) <<< 8 :=
  ⟨_, rfl, rfl, rfl, rfl⟩

/-- A limit, as a limit of 20 bits. -/
theorem descUnits_lt (hlimit : limit < 2 ^ 32) : (descUnits limit attr).2 < 2 ^ 20 := by
  unfold descUnits
  split
  · show limit / 0x1000 < 2 ^ 20
    omega
  · show limit < 2 ^ 20
    omega

/-- The unit of the limit adds to the attributes. -/
theorem descUnits_zero (h : (descUnits limit attr).1 = 0) : attr = 0 := by
  unfold descUnits at h
  split at h
  · exact (Nat.or_eq_zero_iff.mp h).1
  · exact h

/-- The attributes with the unit of the limit. The bits 8 to 11 stay clear, and the bit 15 says
which unit it is. -/
theorem descUnits_attr (limit : Nat) (hclear : attr &&& 0x8F00 = 0) :
    (descUnits limit attr).1 &&& 0xF00 = 0 ∧
      (descUnits limit attr).1 &&& 0x70FF = attr &&& 0x70FF ∧
      ((descUnits limit attr).1 &&& 0x8000 ≠ 0 ↔ 0xFFFFF < limit) := by
  have hlow : attr &&& 0xF00 = 0 := by
    rw [show (0xF00 : Nat) = 0x8F00 &&& 0xF00 by rfl, ← Nat.and_assoc, hclear, Nat.zero_and]
  have hhigh : attr &&& 0x8000 = 0 := by
    rw [show (0x8000 : Nat) = 0x8F00 &&& 0x8000 by rfl, ← Nat.and_assoc, hclear, Nat.zero_and]
  unfold descUnits
  split
  · rename_i hbig
    simp only [Nat.and_or_distrib_right, hlow, hhigh]
    refine ⟨rfl, Nat.or_zero _, fun _ => hbig, fun _ => by decide⟩
  · rename_i hsmall
    exact ⟨hlow, rfl, fun hne => absurd hhigh hne, fun hbig => absurd hbig hsmall⟩

/-- Decoding. For every base and limit of 32 bits and all attributes in which the bits of the limit
and of its unit are clear, the processor reads from the descriptor that `segment_desc_set` writes
the base, the limit and the attributes that were asked for. No other entry changes. -/
theorem segmentDescSet_decodes (gdt : Gdt) (selector : Int) (hbase : base < 2 ^ 32)
    (hlimit : limit < 2 ^ 32) (hattr : attr < 2 ^ 16) (hclear : attr &&& 0x8F00 = 0) :
    (segmentDescSet gdt selector base limit attr (selIndex selector)).base = base ∧
      (limit ≤ 0xFFFFF →
        (segmentDescSet gdt selector base limit attr (selIndex selector)).granular = false ∧
        (segmentDescSet gdt selector base limit attr (selIndex selector)).limit = limit) ∧
      (0xFFFFF < limit →
        (segmentDescSet gdt selector base limit attr (selIndex selector)).granular = true ∧
        (segmentDescSet gdt selector base limit attr (selIndex selector)).limit
          = limit ||| 0xFFF) ∧
      (segmentDescSet gdt selector base limit attr (selIndex selector)).attr &&& 0x70FF = attr ∧
      ∀ j, j ≠ selIndex selector → segmentDescSet gdt selector base limit attr j = gdt j := by
  obtain ⟨d, hset, hdbase, hlow, hdattr⟩ := segmentDescSet_entry gdt selector base limit attr
  obtain ⟨hnibble, hrest, hunit⟩ := descUnits_attr limit hclear
  have hpiece := high_piece_lt (descUnits limit attr).2
  rw [hset, Function.update_self]
  have hlimit20 : d.limit20 = (descUnits limit attr).2 := by
    unfold SegmentDesc.limit20
    rw [hlow, hdattr, nibble_of_attr hnibble hpiece]
    exact limit_pieces (descUnits_lt hlimit)
  have hgranular : d.granular = decide (0xFFFFF < limit) := by
    unfold SegmentDesc.granular
    rw [testBit_15, hdattr, attr_apart _ hpiece (by rfl)]
    exact decide_eq_decide.mpr hunit
  refine ⟨hdbase.trans (base_pieces hbase), fun hsmall => ?_, fun hbig => ?_, ?_, fun j hj => ?_⟩
  · have hg : d.granular = false := by
      rw [hgranular]
      exact decide_eq_false (by omega)
    refine ⟨hg, ?_⟩
    unfold SegmentDesc.limit
    rw [hg, hlimit20]
    exact congrArg Prod.snd (if_neg (by omega : ¬ limit > 0xFFFFF))
  · have hg : d.granular = true := by
      rw [hgranular]
      exact decide_eq_true hbig
    refine ⟨hg, ?_⟩
    unfold SegmentDesc.limit
    have hpages : (descUnits limit attr).2 = limit / 0x1000 := congrArg Prod.snd (if_pos hbig)
    rw [hg, hlimit20, if_pos rfl, hpages]
    exact pages_or_mask limit
  · rw [hdattr, attr_apart _ hpiece (by rfl), hrest]
    -- The mask has all bits of a 16-bit number that are not clear in `attr`.
    have hsplit : attr &&& (0x70FF ||| 0x8F00) = attr :=
      Nat.and_two_pow_sub_one_of_lt_two_pow (n := 16) hattr
    rw [Nat.and_or_distrib_left, hclear, Nat.or_zero] at hsplit
    exact hsplit
  · exact Function.update_of_ne hj d gdt

/-- A data segment of 4 GB, in a table of zeros. -/
theorem segmentDescSet_decodes_flat :
    (segmentDescSet (fun _ => ⟨0, 0, 0, 0, 0⟩) 16 0 0xFFFFFFFF 0x4092 (selIndex 16)).limit
      = 0xFFFFFFFF :=
  ((segmentDescSet_decodes _ 16 (by decide) (by decide) (by decide) (by decide)).2.2.1
    (by decide)).2

end StartKernel
