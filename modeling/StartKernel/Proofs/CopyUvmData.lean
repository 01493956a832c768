import StartKernel.Proofs.GetPaddr

/-!
# `StartKernel.Proofs.CopyUvmData`: a copy into another address space

`memory_copy_uvm_data` cuts a copy at the page boundaries of the destination. Each round writes
through the physical address of the destination, and reads the source through `cr3`.

* `Plan`: where the bytes of a copy come from and where they go to.
* `Plan.round`: one round copies up to the end of the page, and keeps the plan.
* `copiesExactly_of_safe`: the copy is exact, when it stays in the memory that the kernel maps,
  does not write to the tables that it reads and uses no null pointer.
* `copy_unsafe`: seven copies that are not exact.
* `MemInv.copiesExactly`: in a memory whose frames have owners, a copy into an address space is
  exact.
-/

set_option autoImplicit false

namespace StartKernel

open ByteMem (Mem load32 AgreeOff)

variable {s s' : MemState} {m m₀ m' : Mem} {cr3 d toAddr fromAddr size i j k v x p : Nat}

/-! ### The bytes of a walk -/

/-- The byte `x` belongs to one of the two words that the walk for `v` reads. -/
def WalkByte (m : Mem) (d v x : Nat) : Prop :=
  (d + 4 * pdeIndex v ≤ x ∧ x < d + 4 * pdeIndex v + 4) ∨
  (pteAddr m d v ≤ x ∧ x < pteAddr m d v + 4)

/-- The walk reads the same words in memories that agree on its bytes. -/
theorem walkWords_congr (h : ∀ x, WalkByte m d v x → m' x = m x) :
    pteAddr m' d v = pteAddr m d v ∧ mmuTranslate m' d v = mmuTranslate m d v := by
  have hpde : pdeOf m' d v = pdeOf m d v :=
    ByteMem.load32_congr fun x h₁ h₂ => h x (Or.inl ⟨h₁, h₂⟩)
  have haddr : pteAddr m' d v = pteAddr m d v := by
    unfold pteAddr
    rw [hpde]
  have hpte : pteOf m' d v = pteOf m d v := by
    unfold pteOf
    rw [haddr]
    exact ByteMem.load32_congr fun x h₁ h₂ => h x (Or.inr ⟨h₁, h₂⟩)
  refine ⟨haddr, ?_⟩
  rw [mmuTranslate_words, mmuTranslate_words, hpde, hpte]

/-- Where the processor finds a page, `memory_get_paddr` finds it too, when the table entry is
not at the address 0. -/
theorem memoryGetPaddr_mapped (h : mmuTranslate s.mem d v = some p)
    (hne : pteAddr s.mem d v ≠ 0) : memoryGetPaddr s d v = p := by
  rw [mmuTranslate_words] at h
  rw [memoryGetPaddr_eq]
  split at h
  · rename_i hpresent
    rw [if_pos ⟨hpresent.1, hne⟩]
    exact Option.some.inj h
  · cases h

/-- What the kernel maps lies in its half. -/
theorem KernelMapped.below (h : KernelMapped v) : v < memoryTaskBase := by
  have hend : memEbdaStart ≤ memoryTaskBase ∧ consoleDispEnd ≤ memoryTaskBase ∧
    memExtEnd < memoryTaskBase := by decide
  unfold KernelMapped at h
  omega

/-- Where the kernel maps an address, its pointer is the physical address. -/
theorem KernelMapped.addr (h : KernelMapped v) (cr3 : Nat) (m : Mem) :
    kernelAddr cr3 m v = some v := by
  unfold kernelAddr
  rw [if_pos h.below, if_pos h]

/-- Where the kernel maps the destination, the loop of `kernel_memcpy` writes where it is told
to. -/
theorem copyThrough_eq {n dest src : Nat} (h : ∀ j < n, KernelMapped (dest + j)) :
    copyThrough cr3 m dest src n = ByteMem.copyFrom (kernelRead cr3) m dest src n := by
  induction n generalizing m dest src with
  | zero => rfl
  | succ n ih =>
    have hfirst : KernelMapped dest := h 0 (Nat.succ_pos n)
    have hrest : ∀ j < n, KernelMapped (dest + 1 + j) := by
      intro j hj
      rw [Nat.add_assoc, Nat.add_comm 1 j]
      exact h (j + 1) (by omega)
    show (kernelRead cr3 m src).bind _ = (kernelRead cr3 m src).bind _
    congr 1
    funext b
    rw [hfirst.addr, Option.bind_some]
    exact ih hrest

/-- A copy of no byte. -/
theorem memoryCopyUvmData_done : memoryCopyUvmData cr3 s toAddr d fromAddr 0 = some (0, s) := by
  rw [memoryCopyUvmData, dif_neg (by omega)]

/-- A round of the copy that finds an address. -/
theorem memoryCopyUvmData_round {c : Nat} (hsize : 0 < size) (hp : memoryGetPaddr s d toAddr = p)
    (hne : p ≠ 0) (hc : c = min (4096 - p % 4096) size)
    (hcopy : kernelMemcpyThrough cr3 s.mem p fromAddr c = some m') :
    memoryCopyUvmData cr3 s toAddr d fromAddr size
      = memoryCopyUvmData cr3 { s with mem := m' } (toU32 (toAddr + c)) d
        (toU32 (fromAddr + c)) (size - c) := by
  have hmin : min (memPageSize - p % 4096) size = c := hc.symm
  rw [memoryCopyUvmData, dif_pos hsize]
  simp only [hp, hne, if_false, and_page, hmin, hcopy, Option.bind_some]

/-- A round of the copy that page-faults. -/
theorem memoryCopyUvmData_fault {c : Nat} (hsize : 0 < size) (hp : memoryGetPaddr s d toAddr = p)
    (hne : p ≠ 0) (hc : c = min (4096 - p % 4096) size)
    (hcopy : kernelMemcpyThrough cr3 s.mem p fromAddr c = none) :
    memoryCopyUvmData cr3 s toAddr d fromAddr size = none := by
  have hmin : min (memPageSize - p % 4096) size = c := hc.symm
  rw [memoryCopyUvmData, dif_pos hsize]
  simp only [hp, hne, if_false, and_page, hmin, hcopy, Option.bind_none]

/-! ### The plan of a copy -/

/-- The source byte `fromAddr + i` is at the physical address `A i`, and the destination byte
`toAddr + i` at `P i`. The copy writes to no word that it walks over and to no source byte. -/
structure Plan (cr3 : Nat) (m : Mem) (d toAddr fromAddr size : Nat) (P A : Nat → Nat) : Prop where
  to_le : toAddr + size ≤ 2 ^ 32
  from_le : fromAddr + size ≤ 2 ^ 32
  from_ne : 0 < size → fromAddr ≠ 0
  dest : ∀ i < size, mmuTranslate m d (toAddr + i) = some (P i)
  src : ∀ i < size, kernelAddr cr3 m (fromAddr + i) = some (A i)
  inj : ∀ i < size, ∀ j < size, P i = P j → i = j
  apart : ∀ i < size, ∀ j < size, A i ≠ P j
  pos : ∀ i < size, P i ≠ 0
  mapped : ∀ i < size, KernelMapped (P i)
  entry : ∀ i < size, pteAddr m d (toAddr + i) ≠ 0
  destWalk : ∀ i < size, ∀ j < size, ¬ WalkByte m d (toAddr + i) (P j)
  srcWalk : ∀ i < size, memoryTaskBase ≤ fromAddr + i →
    ∀ j < size, ¬ WalkByte m cr3 (fromAddr + i) (P j)

/-- The destination bytes from the byte `k` on. -/
def Dest (P : Nat → Nat) (size k : Nat) (x : Nat) : Prop := ∃ i, k ≤ i ∧ i < size ∧ P i = x

section Copy

variable {P A : Nat → Nat} (h : Plan cr3 m₀ d toAddr fromAddr size P A)
  (hm : AgreeOff (Dest P size 0) m₀ m)

include h hm

/-- The destination stays where it is while the copy goes on. -/
theorem Plan.dest_of_agree (hi : i < size) : pteAddr m d (toAddr + i) ≠ 0 ∧
    mmuTranslate m d (toAddr + i) = some (P i) := by
  -- No byte of the walk has been written.
  have hwalk : ∀ x, WalkByte m₀ d (toAddr + i) x → m x = m₀ x := by
    intro x hx
    refine hm x ?_
    rintro ⟨j, -, hj, rfl⟩
    exact h.destWalk i hi j hj hx
  obtain ⟨haddr, htrans⟩ := walkWords_congr hwalk
  rw [haddr, htrans]
  exact ⟨h.entry i hi, h.dest i hi⟩

/-- The source reads as before while the copy goes on. -/
theorem Plan.read_of_agree (hi : i < size) : kernelRead cr3 m (fromAddr + i) = some (m₀ (A i)) := by
  have haddr : kernelAddr cr3 m (fromAddr + i) = some (A i) := by
    rw [← h.src i hi]
    unfold kernelAddr
    split
    · rfl
    · -- A user address goes through the current directory, whose words are kept.
      rename_i huser
      refine (walkWords_congr fun x hx => hm x ?_).2
      rintro ⟨j, -, hj, rfl⟩
      exact h.srcWalk i hi (by omega) j hj hx
  unfold kernelRead
  rw [haddr, Option.map_some, hm]
  rintro ⟨j, -, hj, heq⟩
  exact h.apart i hi j hj heq.symm

end Copy

section Rounds

variable {P A : Nat → Nat} (h : Plan cr3 m₀ d toAddr fromAddr size P A)

include h

/-- Inside a page the destination bytes lie next to each other. -/
theorem Plan.next (hk : k + j < size) (hj : j < 4096 - P k % 4096) : P (k + j) = P k + j := by
  have hfirst := h.dest k (by omega)
  rw [mmuTranslate_offset hfirst] at hj
  have hnext := mmuTranslate_add hfirst hj
  rw [Nat.add_assoc, h.dest (k + j) hk] at hnext
  exact Option.some.inj hnext

/-- One round copies the bytes from `k` on up to the end of the page or of the copy. -/
theorem Plan.round (hm : AgreeOff (Dest P size 0) m₀ s.mem) (hk : k < size) {c : Nat}
    (hc : c = min (4096 - P k % 4096) (size - k)) :
    ∃ m', memoryCopyUvmData cr3 s (toAddr + k) d (fromAddr + k) (size - k)
        = memoryCopyUvmData cr3 { s with mem := m' } (toU32 ((toAddr + k : Nat) + (c : Nat))) d
          (toU32 ((fromAddr + k : Nat) + (c : Nat))) (size - k - c) ∧
      AgreeOff (Dest P size k) s.mem m' ∧ ∀ j < c, m' (P (k + j)) = m₀ (A (k + j)) := by
  obtain ⟨hentry, htrans⟩ := h.dest_of_agree hm hk
  have hpaddr := memoryGetPaddr_mapped htrans hentry
  have hpos := h.pos k hk
  have hsrc : fromAddr + k ≠ 0 := by
    have hne := h.from_ne (by omega)
    omega
  have hnext : ∀ j < c, P (k + j) = P k + j := fun j hj => h.next (by omega) (by omega)
  -- The kernel maps the bytes of the round, so the pointers are physical addresses.
  have hmapped : ∀ j < c, KernelMapped (P k + j) := fun j hj =>
    hnext j hj ▸ h.mapped (k + j) (by omega)
  have hdest : ∀ x, P k ≤ x ∧ x < P k + c → Dest P size k x := by
    rintro x ⟨h₁, h₂⟩
    exact ⟨k + (x - P k), by omega, by omega, by rw [hnext (x - P k) (by omega)]; omega⟩
  -- Whatever the round has written so far, the source reads as in front of the copy.
  have hreads : ∀ m₁ j, j < c → AgreeOff (fun x => P k ≤ x ∧ x < P k + c) s.mem m₁ →
      kernelRead cr3 m₁ (fromAddr + k + j) = some (m₀ (A (k + j))) := by
    intro m₁ j hj hagree
    rw [Nat.add_assoc]
    refine h.read_of_agree (hm.trans (hagree.mono fun x hx => ?_)) (by omega)
    obtain ⟨i, -, hi, he⟩ := hdest x hx
    exact ⟨i, Nat.zero_le i, hi, he⟩
  obtain ⟨m', hcopy, hbytes⟩ := ByteMem.copyFrom_of_reads hreads
  have hmemcpy : kernelMemcpyThrough cr3 s.mem (P k) (fromAddr + k) c = some m' := by
    unfold kernelMemcpyThrough
    rw [if_neg (by omega), copyThrough_eq hmapped]
    exact hcopy
  refine ⟨m', memoryCopyUvmData_round (by omega) hpaddr hpos hc hmemcpy, ?_, fun j hj => ?_⟩
  · exact ByteMem.agreeOff_copyFrom (fun x h₁ h₂ => hdest x ⟨h₁, h₂⟩) hcopy
  · rw [hnext j hj]
    exact hbytes j hj

/-- The rounds from the byte `k` on copy the rest. The induction is on the number of bytes that
are left, and the bytes in front of `k` stay as they are. -/
theorem Plan.rounds (n : Nat) : ∀ (k : Nat) (s : MemState), size - k = n → k ≤ size →
    AgreeOff (Dest P size 0) m₀ s.mem →
    ∀ a b, (k < size → a = toAddr + k ∧ b = fromAddr + k) →
    ∃ s', memoryCopyUvmData cr3 s a d b (size - k) = some (0, s') ∧
      s'.paddrAlloc = s.paddrAlloc ∧ AgreeOff (Dest P size k) s.mem s'.mem ∧
      ∀ i, k ≤ i → i < size → s'.mem (P i) = m₀ (A i) := by
  induction n using Nat.strong_induction_on with
  | _ n ih =>
    intro k s hn hk hm a b hab
    by_cases hend : k = size
    · -- Nothing is left.
      subst hend
      refine ⟨s, ?_, rfl, AgreeOff.refl _ _, fun i h₁ h₂ => absurd h₂ (by omega)⟩
      rw [Nat.sub_self]
      exact memoryCopyUvmData_done
    · have hlt : k < size := by omega
      obtain ⟨rfl, rfl⟩ := hab hlt
      obtain ⟨c, hc⟩ : ∃ c, c = min (4096 - P k % 4096) (size - k) := ⟨_, rfl⟩
      -- One round, and the others by induction from the state behind it.
      obtain ⟨m', heq, hagree, hbytes⟩ := h.round hm hlt hc
      have hto := h.to_le
      have hfrom := h.from_le
      have hm' : AgreeOff (Dest P size 0) m₀ m' := hm.trans (hagree.mono fun x hx => by
        obtain ⟨i, -, hi, he⟩ := hx
        exact ⟨i, Nat.zero_le i, hi, he⟩)
      obtain ⟨s', hrest, hpalloc, hagree', hbytes'⟩ := ih (size - (k + c)) (by omega) (k + c)
        { s with mem := m' } rfl (by omega) hm'
        (toU32 ((toAddr + k : Nat) + (c : Nat))) (toU32 ((fromAddr + k : Nat) + (c : Nat)))
        (by
          intro hmore
          rw [← Nat.cast_add, ← Nat.cast_add, toU32_natCast (by omega), toU32_natCast (by omega)]
          omega)
      refine ⟨s', ?_, hpalloc, ?_, fun i h₁ h₂ => ?_⟩
      · rw [heq, Nat.sub_sub]
        exact hrest
      · refine hagree.trans (hagree'.mono fun x hx => ?_)
        obtain ⟨i, hi, hi', he⟩ := hx
        exact ⟨i, by omega, hi', he⟩
      · by_cases hin : i < k + c
        · -- A byte of this round is not written again.
          have hbyte := hbytes (i - k) (by omega)
          rw [Nat.add_sub_cancel' h₁] at hbyte
          rw [← hbyte]
          refine hagree' _ ?_
          rintro ⟨j, hj, hj', he⟩
          have hij := h.inj j hj' i h₂ he
          omega
        · exact hbytes' i (by omega) h₂

end Rounds

/-! ### Exact copies -/

/-- The bytes of a copy. The destination is mapped in the user half, to one frame for each page.
The source can be read, and it lies in other frames. -/
structure CopyRange (cr3 : Nat) (m : Mem) (d toAddr fromAddr size : Nat) : Prop where
  user : memoryTaskBase ≤ toAddr
  to_le : toAddr + size ≤ 2 ^ 32
  from_le : fromAddr + size ≤ 2 ^ 32
  mapped : ∀ i < size, (mmuTranslate m d (toAddr + i)).isSome
  source : ∀ i < size, (kernelAddr cr3 m (fromAddr + i)).isSome
  distinct : ∀ i < size, ∀ j < size, ∀ p ∈ mmuTranslate m d (toAddr + i),
    ∀ q ∈ mmuTranslate m d (toAddr + j), p / 4096 = q / 4096 →
      (toAddr + i) / 4096 = (toAddr + j) / 4096
  apart : ∀ i < size, ∀ j < size, ∀ a ∈ kernelAddr cr3 m (fromAddr + i),
    ∀ p ∈ mmuTranslate m d (toAddr + j), a / 4096 ≠ p / 4096

/-- The kernel maps the two words that the walk for `v` reads. -/
def WalkMapped (m : Mem) (d v : Nat) : Prop :=
  ∀ k < 4, KernelMapped (d + 4 * pdeIndex v + k) ∧ KernelMapped (pteAddr m d v + k)

/-- The copy uses no null pointer. The kernel maps the bytes that it writes and the words of the
directory that it reads, and it does not write to a word that its walks read. -/
structure CopySafe (cr3 : Nat) (m : Mem) (d toAddr fromAddr size : Nat) : Prop where
  from_ne : 0 < size → fromAddr ≠ 0
  pos : ∀ i < size, mmuTranslate m d (toAddr + i) ≠ some 0
  mapped : ∀ i < size, ∀ p ∈ mmuTranslate m d (toAddr + i), KernelMapped p
  words : ∀ i < size, WalkMapped m d (toAddr + i)
  entry : ∀ i < size, pteAddr m d (toAddr + i) ≠ 0
  destWalk : ∀ i < size, ∀ j < size, ∀ p ∈ mmuTranslate m d (toAddr + j),
    ¬ WalkByte m d (toAddr + i) p
  srcWalk : ∀ i < size, memoryTaskBase ≤ fromAddr + i →
    ∀ j < size, ∀ p ∈ mmuTranslate m d (toAddr + j), ¬ WalkByte m cr3 (fromAddr + i) p

/-- The call returns 0, without a page fault. The destination, seen through the directory `d`, has
the bytes of the source, and all other bytes and the allocator are as before. -/
def CopiesExactly (cr3 : Nat) (s : MemState) (d toAddr fromAddr size : Nat) : Prop :=
  (∀ i < size, WalkMapped s.mem d (toAddr + i)) ∧
  ∃ s', memoryCopyUvmData cr3 s toAddr d fromAddr size = some (0, s') ∧
    s'.paddrAlloc = s.paddrAlloc ∧
    (∀ i < size, (mmuTranslate s'.mem d (toAddr + i)).map s'.mem
      = kernelRead cr3 s.mem (fromAddr + i)) ∧
    ∀ x, (∀ i < size, mmuTranslate s.mem d (toAddr + i) ≠ some x) → s'.mem x = s.mem x

/-- The plan of a safe copy. -/
theorem CopyRange.plan (h : CopyRange cr3 m d toAddr fromAddr size)
    (hsafe : CopySafe cr3 m d toAddr fromAddr size) :
    ∃ P A, Plan cr3 m d toAddr fromAddr size P A := by
  -- Behind the end of the copy any address will do.
  have hdest : ∀ i, ∃ p, i < size → mmuTranslate m d (toAddr + i) = some p := by
    intro i
    by_cases hi : i < size
    · obtain ⟨p, hp⟩ := Option.isSome_iff_exists.mp (h.mapped i hi)
      exact ⟨p, fun _ => hp⟩
    · exact ⟨0, fun hlt => absurd hlt hi⟩
  have hsrc : ∀ i, ∃ a, i < size → kernelAddr cr3 m (fromAddr + i) = some a := by
    intro i
    by_cases hi : i < size
    · obtain ⟨a, ha⟩ := Option.isSome_iff_exists.mp (h.source i hi)
      exact ⟨a, fun _ => ha⟩
    · exact ⟨0, fun hlt => absurd hlt hi⟩
  choose P hP using hdest
  choose A hA using hsrc
  refine ⟨P, A, h.to_le, h.from_le, hsafe.from_ne, hP, hA, ?_, ?_, ?_, ?_, hsafe.entry, ?_, ?_⟩
  · -- Two bytes at one address lie in one page, at one offset.
    intro i hi j hj he
    have hpage := h.distinct i hi j hj (P i) (hP i hi) (P j) (hP j hj) (by rw [he])
    have hoff := mmuTranslate_offset (hP i hi)
    have hoff' := mmuTranslate_offset (hP j hj)
    rw [he] at hoff
    omega
  · intro i hi j hj he
    exact h.apart i hi j hj (A i) (hA i hi) (P j) (hP j hj) (by rw [he])
  · intro i hi he
    exact hsafe.pos i hi (by rw [hP i hi, he])
  · exact fun i hi => hsafe.mapped i hi (P i) (hP i hi)
  · exact fun i hi j hj => hsafe.destWalk i hi j hj (P j) (hP j hj)
  · exact fun i hi huser j hj => hsafe.srcWalk i hi huser j hj (P j) (hP j hj)

/-- A copy with a plan is exact. -/
theorem Plan.copiesExactly {P A : Nat → Nat} (h : Plan cr3 s.mem d toAddr fromAddr size P A)
    (hwords : ∀ i < size, WalkMapped s.mem d (toAddr + i)) :
    CopiesExactly cr3 s d toAddr fromAddr size := by
  obtain ⟨s', he, hpalloc, hagree, hbytes⟩ := h.rounds size 0 s rfl (Nat.zero_le size)
    (AgreeOff.refl _ _) toAddr fromAddr (fun _ => ⟨rfl, rfl⟩)
  refine ⟨hwords, s', he, hpalloc, fun i hi => ?_, fun x hx => hagree x ?_⟩
  · -- The destination is still where it was, and the source is read in front of the copy.
    rw [(h.dest_of_agree hagree hi).2, Option.map_some, hbytes i (Nat.zero_le i) hi,
      h.read_of_agree (AgreeOff.refl _ _) hi]
  · rintro ⟨i, -, hi, rfl⟩
    exact hx i hi (h.dest i hi)

/-- A safe copy is exact, whatever its alignment and wherever its frames are. -/
theorem copiesExactly_of_safe (h : CopyRange cr3 s.mem d toAddr fromAddr size)
    (hsafe : CopySafe cr3 s.mem d toAddr fromAddr size) :
    CopiesExactly cr3 s d toAddr fromAddr size := by
  obtain ⟨P, A, hplan⟩ := h.plan hsafe
  exact hplan.copiesExactly hsafe.words

/-! ### Small copies -/

instance (m : Mem) (d v x : Nat) : Decidable (WalkByte m d v x) :=
  inferInstanceAs (Decidable (_ ∨ _))

instance (m : Mem) (d v : Nat) : Decidable (WalkMapped m d v) :=
  inferInstanceAs (Decidable (∀ k < 4, _))

/-- A memory with the number of its page in every byte, and with a directory at `0x100000`. Its
entry for the start of the user half is `pde`. The words at `a` and `b` are given too. -/
def copyMem (pde a w b w' : Nat) : MemState where
  mem := ByteMem.store32 (ByteMem.store32 (ByteMem.store32 (fun x => BitVec.ofNat 8 (x / 4096))
    (0x100000 + 4 * 512) pde) a w) b w'
  paddrAlloc := (oneSpace 16).paddrAlloc

/-- A copy of four bytes over a page boundary, into two frames apart from each other. -/
theorem copiesExactly_two_pages :
    CopiesExactly 0x100000 (copyMem 0x101007 0x101000 0x105007 0x101004 0x102007) 0x100000
      0x80000FFE 0x3001 4 := by
  refine copiesExactly_of_safe ⟨?_, ?_, ?_, ?_, ?_, ?_, ?_⟩ ⟨?_, ?_, ?_, ?_, ?_, ?_, ?_⟩ <;>
    decide +kernel

/-- A copy that fails is not exact. -/
theorem not_copiesExactly_of_zero (hsize : 0 < size) (hzero : memoryGetPaddr s d toAddr = 0) :
    ¬ CopiesExactly cr3 s d toAddr fromAddr size := by
  rintro ⟨-, s', he, -⟩
  rw [memoryCopyUvmData_zero hsize hzero] at he
  cases he

/-- A copy of one byte that leaves another byte at the destination is not exact. -/
theorem not_copiesExactly_one {b : BitVec 8} (hp : memoryGetPaddr s d toAddr = p) (hne : p ≠ 0)
    (hcopy : kernelMemcpyThrough cr3 s.mem p fromAddr 1 = some m')
    (hdest : (mmuTranslate m' d toAddr).map m' = some b)
    (hsrc : kernelRead cr3 s.mem fromAddr ≠ some b) :
    ¬ CopiesExactly cr3 s d toAddr fromAddr 1 := by
  rintro ⟨-, s', he, -, hbytes, -⟩
  rw [memoryCopyUvmData_round Nat.one_pos hp hne (by omega) hcopy, memoryCopyUvmData_done] at he
  obtain ⟨-, rfl⟩ := Prod.mk.inj (Option.some.inj he)
  have hbyte := hbytes 0 Nat.one_pos
  rw [Nat.add_zero, Nat.add_zero, hdest] at hbyte
  exact hsrc hbyte.symm

/-- Nothing is copied from the address 0. -/
theorem not_copiesExactly_null :
    ¬ CopiesExactly 0x100000 (copyMem 0x101007 0x101000 0x102007 0 0) 0x100000 0x80000000 0 1 :=
  not_copiesExactly_one (p := 0x102000) (b := 2#8) (by decide +kernel) (by decide)
    (if_pos (by decide)) (by decide +kernel) (by decide +kernel)

/-- A pointer into the user half goes through the current page directory. -/
theorem not_copiesExactly_user :
    ¬ CopiesExactly 0x100000 (copyMem 0x101007 0x101000 0x102007 0x101004 0x80000007) 0x100000
      0x80001000 0x5000 1 := by
  have hcopy : ∃ m', kernelMemcpyThrough 0x100000
      (copyMem 0x101007 0x101000 0x102007 0x101004 0x80000007).mem 0x80000000 0x5000 1 = some m' ∧
      (mmuTranslate m' 0x100000 0x80001000).map m' = some 0#8 := by
    refine ⟨_, rfl, ?_⟩
    decide +kernel
  obtain ⟨m', hcopy, hdest⟩ := hcopy
  exact not_copiesExactly_one (by decide +kernel) (by decide) hcopy hdest (by decide +kernel)

/-- The first round writes over the entry of the second page. -/
theorem not_copiesExactly_table :
    ¬ CopiesExactly 0x100000 (copyMem 0x101007 0x101FF8 0x101007 0x101FFC 0x102007) 0x100000
      0x803FEFFC 0x10 5 := by
  have hcopy : ∃ m', kernelMemcpyThrough 0x100000
      (copyMem 0x101007 0x101FF8 0x101007 0x101FFC 0x102007).mem 0x101FFC 0x10 4 = some m' ∧
      memoryGetPaddr { copyMem 0x101007 0x101FF8 0x101007 0x101FFC 0x102007 with mem := m' }
        0x100000 0x803FF000 = 0 := by
    refine ⟨_, rfl, ?_⟩
    decide +kernel
  obtain ⟨m', hcopy, hzero⟩ := hcopy
  rintro ⟨-, s', he, -⟩
  rw [memoryCopyUvmData_round (by decide) (by decide +kernel) (by decide) (by decide) hcopy,
    show toU32 ((0x803FEFFC : Nat) + (4 : Nat)) = 0x803FF000 by decide,
    memoryCopyUvmData_zero (by decide) hzero] at he
  cases he

/-- A copy to the first byte behind the memory that the kernel maps page-faults. -/
theorem not_copiesExactly_fault :
    ¬ CopiesExactly 0x100000 (copyMem 0x101007 0x101000 0x8000007 0 0) 0x100000 0x80000000
      0x5000 1 := by
  have hcopy : kernelMemcpyThrough 0x100000 (copyMem 0x101007 0x101000 0x8000007 0 0).mem 0x8000000
      0x5000 1 = none := rfl
  rintro ⟨-, s', he, -⟩
  rw [memoryCopyUvmData_fault (by decide) (by decide +kernel) (by decide) (by decide) hcopy] at he
  cases he

/-- The walk to a table behind the memory that the kernel maps page-faults. -/
theorem not_copiesExactly_walk :
    ¬ CopiesExactly 0x100000 (copyMem 0x8000007 0x8000000 0x102007 0 0) 0x100000 0x80000000
      0x5000 1 := by
  rintro ⟨hwords, -⟩
  have hword := hwords 0 Nat.one_pos 0 (by decide)
  revert hword
  decide +kernel

/-- Copies that are not exact: from the address 0, to the byte 0 of physical memory, to a frame
of the user half, to a frame behind the memory that the kernel maps, through a table at the
address 0 and through one behind that memory, and over the table of the destination. -/
theorem copy_unsafe :
    (CopyRange 0x100000 (copyMem 0x101007 0x101000 0x102007 0 0).mem 0x100000 0x80000000 0 1 ∧
      ¬ CopiesExactly 0x100000 (copyMem 0x101007 0x101000 0x102007 0 0) 0x100000 0x80000000 0 1) ∧
    (CopyRange 0x100000 (copyMem 0x101007 0x101000 0x7 0 0).mem 0x100000 0x80000000 0x5000 1 ∧
      ¬ CopiesExactly 0x100000 (copyMem 0x101007 0x101000 0x7 0 0) 0x100000 0x80000000 0x5000 1) ∧
    (CopyRange 0x100000 (copyMem 0x101007 0x101000 0x102007 0x101004 0x80000007).mem 0x100000
        0x80001000 0x5000 1 ∧
      ¬ CopiesExactly 0x100000 (copyMem 0x101007 0x101000 0x102007 0x101004 0x80000007) 0x100000
        0x80001000 0x5000 1) ∧
    (CopyRange 0x100000 (copyMem 0x101007 0x101000 0x8000007 0 0).mem 0x100000 0x80000000
        0x5000 1 ∧
      ¬ CopiesExactly 0x100000 (copyMem 0x101007 0x101000 0x8000007 0 0) 0x100000 0x80000000
        0x5000 1) ∧
    (CopyRange 0x100000 (copyMem 0x7 0 0x102007 0x101000 0).mem 0x100000 0x80000000 0x5000 1 ∧
      ¬ CopiesExactly 0x100000 (copyMem 0x7 0 0x102007 0x101000 0) 0x100000 0x80000000 0x5000 1) ∧
    (CopyRange 0x100000 (copyMem 0x8000007 0x8000000 0x102007 0 0).mem 0x100000 0x80000000
        0x5000 1 ∧
      ¬ CopiesExactly 0x100000 (copyMem 0x8000007 0x8000000 0x102007 0 0) 0x100000 0x80000000
        0x5000 1) ∧
    (CopyRange 0x100000 (copyMem 0x101007 0x101FF8 0x101007 0x101FFC 0x102007).mem 0x100000
        0x803FEFFC 0x10 5 ∧
      ¬ CopiesExactly 0x100000 (copyMem 0x101007 0x101FF8 0x101007 0x101FFC 0x102007) 0x100000
        0x803FEFFC 0x10 5) := by
  refine ⟨⟨⟨?_, ?_, ?_, ?_, ?_, ?_, ?_⟩, not_copiesExactly_null⟩,
    ⟨⟨?_, ?_, ?_, ?_, ?_, ?_, ?_⟩, not_copiesExactly_of_zero (by decide) (by decide +kernel)⟩,
    ⟨⟨?_, ?_, ?_, ?_, ?_, ?_, ?_⟩, not_copiesExactly_user⟩,
    ⟨⟨?_, ?_, ?_, ?_, ?_, ?_, ?_⟩, not_copiesExactly_fault⟩,
    ⟨⟨?_, ?_, ?_, ?_, ?_, ?_, ?_⟩, not_copiesExactly_of_zero (by decide) (by decide +kernel)⟩,
    ⟨⟨?_, ?_, ?_, ?_, ?_, ?_, ?_⟩, not_copiesExactly_walk⟩,
    ⟨⟨?_, ?_, ?_, ?_, ?_, ?_, ?_⟩, not_copiesExactly_table⟩⟩ <;> decide +kernel

/-! ### Copies between address spaces -/

/-- A mapped address has a table. -/
theorem tableAt_of_translate (h : (mmuTranslate m d v).isSome) :
    tableAt m d (pdeIndex v) = some (pdePaddr (pdeOf m d v)) := by
  rw [mmuTranslate_words] at h
  split at h
  · rename_i hpresent
    exact if_pos hpresent.1
  · cases h

section Owned

variable {L : Layout} {live held : List Nat}

/-- A mapped user address lies in a page of the directory. -/
theorem uses_of_translate (hd : d ∈ live) (h₁ : 0x80000000 ≤ v) (h₂ : v < 2 ^ 32)
    (hp : mmuTranslate m d v = some p) :
    Uses L m live held (p / 4096 * 4096) (.page d (pdeIndex v) (pteIndex v)) := by
  rw [mmuTranslate_eq] at hp
  obtain ⟨e, he, rfl⟩ := Option.map_eq_some_iff.mp hp
  have hframe : (ptePaddr e + v % 4096) / 4096 * 4096 = ptePaddr e :=
    page_start (ptePaddr_aligned e) (Nat.mod_lt v (by decide))
  rw [hframe]
  exact uses_page hd h₁ h₂ he

/-- The kernel maps the bytes of a frame. -/
theorem IsFrame.mapped {f : Nat} (hf : IsFrame f) (hk : k < 4096) : KernelMapped (f + k) := by
  have habove := hf.above
  have hbelow := hf.below
  have hal := hf.aligned
  refine Or.inr (Or.inr ?_)
  unfold memExtStart memExtEnd
  omega

variable (h : MemInv L s live held)

include h

/-- The walk for a mapped user address reads no byte of a page. -/
theorem MemInv.not_walkByte (hd : Root L live d) (h₁ : 0x80000000 ≤ v) (h₂ : v < 2 ^ 32)
    (hmap : (mmuTranslate s.mem d v).isSome) {d' i' j' : Nat}
    (hu : Uses L s.mem live held (x / 4096 * 4096) (.page d' i' j')) : ¬ WalkByte s.mem d v x := by
  have hidx := pdeIndex_lt h₂
  have hown : OwnsEntry L live d (pdeIndex v) :=
    ⟨hidx, hd.imp id fun hlive => ⟨hlive, pdeIndex_user h₁⟩⟩
  rintro (⟨hx₁, hx₂⟩ | ⟨hx₁, hx₂⟩)
  · -- A byte of the directory.
    rw [word_in_frame (h.root_aligned hd) hidx hx₁ hx₂] at hu
    rcases hd with rfl | hd
    · exact h.kernel_ne ((h.owned.taken hu).isFrame h.shape) rfl
    · cases h.owned.unique hu (show Uses L s.mem live held d (.dir d) from ⟨hd, rfl⟩)
  · -- A byte of the table, which the directory entry points to.
    have ht := tableAt_of_translate hmap
    unfold pteAddr at hx₁ hx₂
    rw [word_in_frame (tableAt_aligned ht) (pteIndex_lt v) hx₁ hx₂] at hu
    cases h.owned.unique hu
      (show Uses L s.mem live held _ (.table d (pdeIndex v)) from ⟨hown, ht⟩)

/-- In a memory whose frames have owners, a copy into an address space is safe. -/
theorem MemInv.copySafe (hd : d ∈ live) (hcr3 : Root L live cr3)
    (hrange : CopyRange cr3 s.mem d toAddr fromAddr size) (hfrom : 0 < size → fromAddr ≠ 0) :
    CopySafe cr3 s.mem d toAddr fromAddr size := by
  have hto := hrange.to_le
  have hfrom_le := hrange.from_le
  have huser : 0x80000000 ≤ toAddr := hrange.user
  have hpage : ∀ j < size, ∀ p ∈ mmuTranslate s.mem d (toAddr + j),
      Uses L s.mem live held (p / 4096 * 4096)
        (.page d (pdeIndex (toAddr + j)) (pteIndex (toAddr + j))) :=
    fun j hj p hp => uses_of_translate hd (by omega) (by omega) hp
  have hframe : ∀ j < size, ∀ p ∈ mmuTranslate s.mem d (toAddr + j),
      IsFrame (p / 4096 * 4096) :=
    fun j hj p hp => (h.owned.taken (hpage j hj p hp)).isFrame h.shape
  have htable : ∀ i < size, IsFrame (pdePaddr (pdeOf s.mem d (toAddr + i))) := fun i hi =>
    h.table_isFrame (ownsEntry_user hd (pdeIndex_user (by omega)) (pdeIndex_lt (by omega)))
      (tableAt_of_translate (hrange.mapped i hi))
  have hdir : IsFrame d := (h.owned.taken (show Uses L s.mem live held d (.dir d) from
    ⟨hd, rfl⟩)).isFrame h.shape
  refine ⟨hfrom, fun i hi he => ?_, fun i hi p hp => ?_, fun i hi k hk => ?_, fun i hi he => ?_,
    ?_, ?_⟩
  · exact (hframe i hi 0 he).ne_zero rfl
  · rw [← Nat.div_add_mod' p 4096]
    exact (hframe i hi p hp).mapped (Nat.mod_lt p (by decide))
  · -- The words lie in the frames of the directory and of the table.
    have hidx := pdeIndex_lt (v := toAddr + i) (by omega)
    have hidx' := pteIndex_lt (toAddr + i)
    unfold pteAddr
    rw [Nat.add_assoc, Nat.add_assoc]
    exact ⟨hdir.mapped (by omega), (htable i hi).mapped (by omega)⟩
  · -- No frame is at the address 0.
    have hne := (htable i hi).ne_zero
    unfold pteAddr at he
    omega
  · intro i hi j hj p hp
    exact h.not_walkByte (Or.inr hd) (by omega) (by omega) (hrange.mapped i hi) (hpage j hj p hp)
  · -- A user source that can be read is mapped in the current directory.
    intro i hi huser' j hj p hp
    have hsource := hrange.source i hi
    unfold memoryTaskBase at huser'
    unfold kernelAddr memoryTaskBase at hsource
    rw [if_neg (by omega)] at hsource
    exact h.not_walkByte hcr3 huser' (by omega) hsource (hpage j hj p hp)

/-- A copy from any readable range into the mapped pages of an address space is exact. -/
theorem MemInv.copiesExactly (hd : d ∈ live) (hcr3 : Root L live cr3)
    (hrange : CopyRange cr3 s.mem d toAddr fromAddr size) (hfrom : 0 < size → fromAddr ≠ 0) :
    CopiesExactly cr3 s d toAddr fromAddr size := by
  exact copiesExactly_of_safe hrange (h.copySafe hd hcr3 hrange hfrom)

end Owned

end StartKernel
