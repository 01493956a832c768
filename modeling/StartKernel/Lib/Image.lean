import StartKernel.Lib.CString

/-!
# `StartKernel.Lib.Image`: memory images made of blocks

A block is a list of bytes and the address that they go to. `writeBlocks` writes blocks one after
the other, so that the later ones count where they overlap.

* `bytesAt_congr`: bytes that were read depend on these addresses only.
* `writeBlocks_outside`: the blocks change no byte outside of them.
* `writeBlocks_inside`: blocks that do not overlap all keep their bytes.
-/

set_option autoImplicit false

namespace ByteMem

/-- The `n` bytes from `a` on. -/
def bytesAt (m : Mem) (a n : Nat) : List (BitVec 8) := (List.range n).map fun k => m (a + k)

/-- Bytes, and the address that they go to. -/
structure Block where
  start : Nat
  bytes : List (BitVec 8)

/-- The address lies in the block. -/
def Block.Covers (b : Block) (x : Nat) : Prop := b.start ≤ x ∧ x < b.start + b.bytes.length

/-- The blocks are written one after the other. -/
def writeBlocks (m : Mem) (bs : List Block) : Mem :=
  bs.foldl (fun m b => storeBytes m b.start b.bytes) m

variable {m m' : Mem} {a n x i : Nat} {b : Block} {bs : List Block}

@[simp] theorem length_bytesAt (m : Mem) (a n : Nat) : (bytesAt m a n).length = n := by
  unfold bytesAt
  rw [List.length_map, List.length_range]

/-- One of the bytes. -/
theorem getElem?_bytesAt (m : Mem) (a : Nat) (hi : i < n) :
    (bytesAt m a n)[i]? = some (m (a + i)) := by
  unfold bytesAt
  rw [List.getElem?_map, List.getElem?_range hi, Option.map_some]

/-- The first byte and the ones behind it. -/
theorem bytesAt_succ (m : Mem) (a n : Nat) :
    bytesAt m a (n + 1) = m a :: bytesAt m (a + 1) n := by
  have hnext : ∀ k, m (a + (k + 1)) = m (a + 1 + k) := fun k => by
    rw [Nat.add_assoc, Nat.add_comm 1]
  unfold bytesAt
  rw [List.range_succ_eq_map, List.map_cons, List.map_map]
  exact congrArg _ (List.map_congr_left fun k _ => hnext k)

/-- The bytes depend on these addresses only. -/
theorem bytesAt_congr (h : ∀ x, a ≤ x → x < a + n → m' x = m x) :
    bytesAt m' a n = bytesAt m a n := by
  refine List.map_congr_left fun k hk => ?_
  have hkn := List.mem_range.mp hk
  exact h (a + k) (by omega) (by omega)

theorem writeBlocks_cons (m : Mem) (b : Block) (bs : List Block) :
    writeBlocks m (b :: bs) = writeBlocks (storeBytes m b.start b.bytes) bs := rfl

/-- Bytes outside of all blocks. -/
theorem writeBlocks_outside (h : ∀ b ∈ bs, ¬ b.Covers x) : writeBlocks m bs x = m x := by
  induction bs generalizing m with
  | nil => rfl
  | cons b bs ih =>
    have hb : ¬ b.Covers x := h b List.mem_cons_self
    unfold Block.Covers at hb
    rw [writeBlocks_cons, ih fun c hc => h c (List.mem_cons_of_mem b hc),
      storeBytes_outside (by omega)]

/-- A byte of a block, when the blocks do not overlap. -/
theorem writeBlocks_inside (hapart : bs.Pairwise fun b c => ∀ x, b.Covers x → ¬ c.Covers x)
    (hb : b ∈ bs) (hi : i < b.bytes.length) :
    b.bytes[i]? = some (writeBlocks m bs (b.start + i)) := by
  induction bs generalizing m with
  | nil => exact absurd hb List.not_mem_nil
  | cons c bs ih =>
    obtain ⟨hfirst, hrest⟩ := List.pairwise_cons.mp hapart
    rw [writeBlocks_cons]
    rcases List.mem_cons.mp hb with rfl | hb
    · -- The blocks behind this one do not overwrite it.
      have hin : b.Covers (b.start + i) := ⟨by omega, by omega⟩
      rw [writeBlocks_outside fun d hd => hfirst d hd _ hin]
      exact storeBytes_inside hi
    · exact ih hrest hb

end ByteMem
