import StartKernel.Lib.Image
import StartKernel.Loader.Elf

/-!
# `StartKernel.Proofs.ElfLoader`: the memory image of `reload_elf_file`

The loader reads the file while it writes to the memory, and does not look whether it writes over
the file. When no segment touches the buffer, the headers and the data stay as they were, and what
is written are the blocks that the file describes.

* `copyBytes_spec`, `clearBytes_spec`: the two loops over the bytes of a segment.
* `loadSegments_spec`: the loop over the headers writes one block for each `PT_LOAD` header.
* `reloadElfFile_blocks`: the whole loader, as the blocks of the file.
* `reloadElfFile_image`: every byte of the memory afterwards.
-/

set_option autoImplicit false

namespace StartKernel

open ByteMem

variable {m m' m₀ : Mem} {fb size phdr dest src left n i k : Nat} {j : Int} {h : Phdr}

/-! ### Headers in a file that does not change -/

/-- The file in the buffer is the same. -/
def SameFile (fb size : Nat) (m m' : Mem) : Prop := ∀ x, fb ≤ x → x < fb + size → m' x = m x

/-- A program header depends on 32 bytes. -/
theorem readPhdr_congr {a : Nat} (heq : ∀ x, a ≤ x → x < a + 32 → m' x = m x) :
    readPhdr m' a = readPhdr m a := by
  have hword : ∀ k ≤ 28, load32 m' (a + k) = load32 m (a + k) := fun k hk =>
    load32_congr fun x h₁ h₂ => heq x (by omega) (by omega)
  have hfirst := hword 0 (by omega)
  unfold readPhdr
  rw [← hword 4 (by omega), ← hword 12 (by omega), ← hword 16 (by omega), ← hword 20 (by omega)]
  rw [Nat.add_zero] at hfirst
  rw [hfirst]

/-- The file header depends on 52 bytes. -/
theorem readEhdr_congr (hsize : 52 ≤ size) (hfile : SameFile fb size m m') :
    readEhdr m' fb = readEhdr m fb := by
  have hentry : load32 m' (fb + 24) = load32 m (fb + 24) :=
    load32_congr fun x h₁ h₂ => hfile x (by omega) (by omega)
  have hphoff : load32 m' (fb + 28) = load32 m (fb + 28) :=
    load32_congr fun x h₁ h₂ => hfile x (by omega) (by omega)
  unfold readEhdr load16
  rw [hentry, hphoff, hfile (fb + 44) (by omega) (by omega),
    hfile (fb + 44 + 1) (by omega) (by omega)]

/-- The addresses that a segment occupies. -/
def Phdr.Covers (h : Phdr) (x : Nat) : Prop := h.pPaddr ≤ x ∧ x < h.pPaddr + h.pMemsz

/-- A segment whose data lies in the file and whose place in the memory does not wrap around and
does not meet the buffer. -/
structure Loadable (fb size : Nat) (h : Phdr) : Prop where
  data : h.pOffset + h.pFilesz ≤ size
  filesz : h.pFilesz ≤ h.pMemsz
  memsz : h.pMemsz < 2 ^ 31
  room : h.pPaddr + h.pMemsz ≤ 2 ^ 32
  apart : ∀ x, h.Covers x → ¬ (fb ≤ x ∧ x < fb + size)

/-- The block of a segment: its data, and zeros behind it. -/
def segmentBlock (m : Mem) (fb : Nat) (h : Phdr) : Block where
  start := h.pPaddr
  bytes := bytesAt m (fb + h.pOffset) h.pFilesz ++ List.replicate (h.pMemsz - h.pFilesz) 0#8

theorem length_segmentBlock (m : Mem) (fb : Nat) (hfilesz : h.pFilesz ≤ h.pMemsz) :
    (segmentBlock m fb h).bytes.length = h.pMemsz := by
  show (_ ++ _ : List (BitVec 8)).length = _
  rw [List.length_append, length_bytesAt, List.length_replicate]
  omega

/-- The block occupies the addresses of the segment. -/
theorem covers_segmentBlock (hfilesz : h.pFilesz ≤ h.pMemsz) (x : Nat) :
    (segmentBlock m fb h).Covers x ↔ h.Covers x := by
  unfold Block.Covers Phdr.Covers
  rw [length_segmentBlock m fb hfilesz]
  exact Iff.rfl

/-- The block depends on the file only. -/
theorem segmentBlock_congr (hl : Loadable fb size h) (hfile : SameFile fb size m m') :
    segmentBlock m' fb h = segmentBlock m fb h := by
  have hdata := hl.data
  have hbytes : bytesAt m' (fb + h.pOffset) h.pFilesz = bytesAt m (fb + h.pOffset) h.pFilesz :=
    bytesAt_congr fun x h₁ h₂ => hfile x (by omega) (by omega)
  unfold segmentBlock
  rw [hbytes]

/-! ### The loops over the bytes of a segment -/

/-- A pointer that goes on inside of the address space. -/
theorem toU32_succ {a : Nat} (ha : a < 2 ^ 32) :
    toU32 ((toU32 a : Nat) + 1) = toU32 ((a + 1 : Nat) : Int) := by
  rw [toU32_natCast ha]
  push_cast
  rfl

/-- The loop copies the bytes, when it writes neither to the header nor to the source. -/
theorem copyBytes_spec (hh : readPhdr m phdr = h) (hcount : j + left = h.pFilesz) (hj : 0 ≤ j)
    (hbits : h.pFilesz < 2 ^ 31) (hdest : dest + left ≤ 2 ^ 32) (hsrc : src + left ≤ 2 ^ 32)
    (hhead : ∀ x, dest ≤ x → x < dest + left → x < phdr ∨ phdr + 32 ≤ x)
    (hdata : ∀ x, dest ≤ x → x < dest + left → x < src ∨ src + left ≤ x) (hn : left < n) :
    copyBytes phdr m (toU32 dest) (toU32 src) j n
      = some (storeBytes m dest (bytesAt m src left)) := by
  induction left generalizing m dest src j n with
  | zero =>
    obtain ⟨n, rfl⟩ := Nat.exists_eq_succ_of_ne_zero (by omega : n ≠ 0)
    have hend : ¬ toU32 j < h.pFilesz := by
      rw [toU32_of_fits hj (by omega)]
      omega
    unfold copyBytes
    rw [hh, if_neg hend]
    show some m = some (storeBytes m dest [])
    rw [storeBytes_nil]
  | succ left ih =>
    obtain ⟨n, rfl⟩ := Nat.exists_eq_succ_of_ne_zero (by omega : n ≠ 0)
    push_cast at hcount
    have hgo : toU32 j < h.pFilesz := by
      rw [toU32_of_fits hj (by omega)]
      omega
    -- The byte that is stored is neither in the header nor in the source.
    have hheadDest := hhead dest (Nat.le_refl dest) (by omega)
    have hdataDest := hdata dest (Nat.le_refl dest) (by omega)
    have hheader : readPhdr (store8 m dest (m src)) phdr = h :=
      (readPhdr_congr fun x h₁ h₂ => store8_apart m _ (by omega)).trans hh
    have hrest : bytesAt (store8 m dest (m src)) (src + 1) left = bytesAt m (src + 1) left :=
      bytesAt_congr fun x h₁ h₂ => store8_apart m _ (by omega)
    unfold copyBytes
    rw [hh, if_pos hgo, toU32_succ (by omega), toU32_succ (by omega), toU32_natCast (by omega),
      toU32_natCast (by omega), toInt_of_fits (by omega) (by omega), bytesAt_succ, storeBytes_cons,
      ← hrest]
    exact ih hheader (by omega) (by omega) (by omega) (by omega)
      (fun x h₁ h₂ => hhead x (by omega) (by omega)) (fun x h₁ h₂ => by
        have hx := hdata x (by omega) (by omega)
        omega) (by omega)

/-- The loop clears the bytes, when it does not write to the header. -/
theorem clearBytes_spec (hh : readPhdr m phdr = h) (hcount : h.pFilesz + j + left = h.pMemsz)
    (hj : 0 ≤ j) (hbits : h.pMemsz < 2 ^ 31) (hdest : dest + left ≤ 2 ^ 32)
    (hhead : ∀ x, dest ≤ x → x < dest + left → x < phdr ∨ phdr + 32 ≤ x) (hn : left < n) :
    clearBytes phdr m (toU32 dest) j n = some (storeBytes m dest (List.replicate left 0#8)) := by
  induction left generalizing m dest j n with
  | zero =>
    obtain ⟨n, rfl⟩ := Nat.exists_eq_succ_of_ne_zero (by omega : n ≠ 0)
    have hend : ¬ toU32 j < toU32 (h.pMemsz - h.pFilesz) := by
      rw [toU32_of_fits hj (by omega), toU32_of_fits (by omega) (by omega)]
      omega
    unfold clearBytes
    rw [hh, if_neg hend, List.replicate_zero, storeBytes_nil]
  | succ left ih =>
    obtain ⟨n, rfl⟩ := Nat.exists_eq_succ_of_ne_zero (by omega : n ≠ 0)
    push_cast at hcount
    have hgo : toU32 j < toU32 (h.pMemsz - h.pFilesz) := by
      rw [toU32_of_fits hj (by omega), toU32_of_fits (by omega) (by omega)]
      omega
    have hheadDest := hhead dest (Nat.le_refl dest) (by omega)
    have hheader : readPhdr (store8 m dest 0#8) phdr = h :=
      (readPhdr_congr fun x h₁ h₂ => store8_apart m _ (by omega)).trans hh
    unfold clearBytes
    rw [hh, if_pos hgo, toU32_succ (by omega), toU32_natCast (by omega),
      toInt_of_fits (by omega) (by omega), List.replicate_succ, storeBytes_cons]
    exact ih hheader (by omega) (by omega) (by omega)
      (fun x h₁ h₂ => hhead x (by omega) (by omega)) (by omega)

/-- One segment: its block is written. -/
theorem loadSegment_spec (hh : readPhdr m phdr = h) (hl : Loadable fb size h)
    (hfb : fb + size ≤ 2 ^ 32) (h₁ : fb ≤ phdr) (h₂ : phdr + 32 ≤ fb + size) :
    loadSegment m fb phdr
      = some (storeBytes m h.pPaddr (segmentBlock m fb h).bytes) := by
  obtain ⟨hdata, hfilesz, hmemsz, hroom, hapart⟩ := hl
  -- Nothing is written to the buffer.
  have hout : ∀ x, h.pPaddr ≤ x → x < h.pPaddr + h.pMemsz → x < fb ∨ fb + size ≤ x := by
    intro x hx₁ hx₂
    have hx := hapart x ⟨hx₁, hx₂⟩
    omega
  have hpaddr : h.pPaddr < 2 ^ 32 := by
    rw [← hh]
    exact load32_lt m (phdr + 12)
  have hcopy : copyBytes phdr m (toU32 h.pPaddr) (toU32 ((fb + h.pOffset : Nat) : Int)) 0 loopSteps
      = some (storeBytes m h.pPaddr (bytesAt m (fb + h.pOffset) h.pFilesz)) :=
    copyBytes_spec hh (by omega) (by omega) (by omega) (by omega) (by omega)
      (fun x hx₁ hx₂ => by
        have hx := hout x hx₁ (by omega)
        omega)
      (fun x hx₁ hx₂ => by
        have hx := hout x hx₁ (by omega)
        omega) (by unfold loopSteps; omega)
  rw [toU32_natCast hpaddr, Nat.cast_add] at hcopy
  -- The header is read again behind the first loop.
  have hheader :
      readPhdr (storeBytes m h.pPaddr (bytesAt m (fb + h.pOffset) h.pFilesz)) phdr = h := by
    refine (readPhdr_congr fun x hx₁ hx₂ => storeBytes_outside ?_).trans hh
    rw [length_bytesAt]
    by_contra hin
    have hx := hout x (by omega) (by omega)
    omega
  have hclear : clearBytes phdr (storeBytes m h.pPaddr (bytesAt m (fb + h.pOffset) h.pFilesz))
      (toU32 ((h.pPaddr + h.pFilesz : Nat) : Int)) 0 loopSteps
      = some (storeBytes (storeBytes m h.pPaddr (bytesAt m (fb + h.pOffset) h.pFilesz))
        (h.pPaddr + h.pFilesz) (List.replicate (h.pMemsz - h.pFilesz) 0#8)) :=
    clearBytes_spec hheader (by omega) (by omega) (by omega) (by omega)
      (fun x hx₁ hx₂ => by
        have hx := hout x (by omega) (by omega)
        omega) (by unfold loopSteps; omega)
  rw [Nat.cast_add] at hclear
  unfold loadSegment segmentBlock
  rw [hh, hcopy, Option.bind_some, hheader, hclear, storeBytes_append, length_bytesAt]

/-! ### The loop over the headers -/

/-- The program header `i` of the file. -/
def phdrOf (m : Mem) (fb i : Nat) : Phdr := readPhdr m (fb + (readEhdr m fb).ePhoff + 32 * i)

/-- The header `i` is one of a segment that is to be loaded. -/
def IsLoad (m : Mem) (fb i : Nat) : Prop :=
  i < (readEhdr m fb).ePhnum ∧ (phdrOf m fb i).pType = ptLoad

/-- A file with a header and a table of program headers of 32 bytes each. -/
structure WellFormed (m : Mem) (fb size : Nat) : Prop where
  magic : HasMagic m fb
  header : 52 ≤ size
  room : fb + size ≤ 2 ^ 32
  table : (readEhdr m fb).ePhoff + 32 * (readEhdr m fb).ePhnum ≤ size

/-- The segments of a file can be loaded, and do not overlap. -/
structure Segments (m : Mem) (fb size : Nat) : Prop where
  loadable : ∀ i, IsLoad m fb i → Loadable fb size (phdrOf m fb i)
  apart : ∀ i k, i ≠ k → IsLoad m fb i → IsLoad m fb k →
    ∀ x, (phdrOf m fb i).Covers x → ¬ (phdrOf m fb k).Covers x

/-- The blocks of `n` program headers, from the header `i` on. -/
def loadBlocks (m : Mem) (fb i n : Nat) : List Block :=
  ((List.range' i n).filter fun k => (phdrOf m fb k).pType = ptLoad).map fun k =>
    segmentBlock m fb (phdrOf m fb k)

/-- A program header of a file that does not change. -/
theorem phdrOf_congr (hw : WellFormed m fb size) (hfile : SameFile fb size m m')
    (hi : i < (readEhdr m fb).ePhnum) : phdrOf m' fb i = phdrOf m fb i := by
  have htable := hw.table
  unfold phdrOf
  rw [readEhdr_congr hw.header hfile]
  exact readPhdr_congr fun x h₁ h₂ => hfile x (by omega) (by omega)

/-- There are less than `2^16` program headers. -/
theorem ePhnum_lt (m : Mem) (fb : Nat) : (readEhdr m fb).ePhnum < 2 ^ 16 := by
  have h₀ := (m (fb + 44)).isLt
  have h₁ := (m (fb + 44 + 1)).isLt
  show load16 m (fb + 44) < 2 ^ 16
  unfold load16
  omega

/-- The loop over the headers, with the file as it was at first: each segment is written as the file
describes it. -/
theorem loadSegments_spec (hw : WellFormed m₀ fb size) (hs : Segments m₀ fb size)
    (hfile : SameFile fb size m₀ m) (hcount : i + left = (readEhdr m₀ fb).ePhnum)
    (hn : left < n) :
    loadSegments fb m i n = some (writeBlocks m (loadBlocks m₀ fb i left)) := by
  induction left generalizing m i n with
  | zero =>
    obtain ⟨n, rfl⟩ := Nat.exists_eq_succ_of_ne_zero (by omega : n ≠ 0)
    unfold loadSegments
    rw [readEhdr_congr hw.header hfile, if_neg (by omega)]
    rfl
  | succ left ih =>
    obtain ⟨n, rfl⟩ := Nat.exists_eq_succ_of_ne_zero (by omega : n ≠ 0)
    have hphnum := ePhnum_lt m₀ fb
    have htable := hw.table
    have hroom := hw.room
    have hi : i < (readEhdr m₀ fb).ePhnum := by omega
    have hnext : toInt ((i : Int) + 1) = ((i + 1 : Nat) : Int) := by
      rw [toInt_of_fits (by omega) (by omega)]
      push_cast
      rfl
    -- The address of the header, and the header there.
    have haddr : toU32 ((fb : Int) + (readEhdr m₀ fb).ePhoff + 32 * (i : Int))
        = fb + (readEhdr m₀ fb).ePhoff + 32 * i := by
      rw [← toU32_natCast (n := fb + (readEhdr m₀ fb).ePhoff + 32 * i) (by omega)]
      push_cast
      rfl
    have hhdr : readPhdr m (fb + (readEhdr m₀ fb).ePhoff + 32 * i) = phdrOf m₀ fb i := by
      have hcongr := phdrOf_congr hw hfile hi
      unfold phdrOf at hcongr ⊢
      rwa [readEhdr_congr hw.header hfile] at hcongr
    unfold loadSegments
    rw [readEhdr_congr hw.header hfile, if_pos (by omega)]
    dsimp only
    rw [haddr, hhdr, hnext]
    unfold loadBlocks
    rw [List.range'_succ]
    by_cases htype : (phdrOf m₀ fb i).pType = ptLoad
    · have hl := hs.loadable i ⟨hi, htype⟩
      have hblock := segmentBlock_congr hl hfile
      rw [if_neg (fun hne => hne htype), loadSegment_spec hhdr hl hroom (by omega) (by omega),
        Option.bind_some, hblock, List.filter_cons_of_pos (by simpa using htype), List.map_cons,
        writeBlocks_cons]
      refine ih (fun x h₁ h₂ => ?_) (by omega) (by omega)
      -- The segment was not written to the buffer.
      have hx : ¬ (phdrOf m₀ fb i).Covers x := fun hc => hl.apart x hc ⟨h₁, h₂⟩
      unfold Phdr.Covers at hx
      rw [storeBytes_outside (by rw [length_segmentBlock _ _ hl.filesz]; omega)]
      exact hfile x h₁ h₂
    · rw [if_pos htype, List.filter_cons_of_neg (by simpa using htype)]
      exact ih hfile (by omega) (by omega)

/-! ### The image -/

/-- The blocks are those of the segments. -/
theorem mem_loadBlocks {b : Block} {n : Nat} (hn : n = (readEhdr m fb).ePhnum) :
    b ∈ loadBlocks m fb 0 n ↔ ∃ i, IsLoad m fb i ∧ b = segmentBlock m fb (phdrOf m fb i) := by
  unfold loadBlocks IsLoad
  rw [← List.range_eq_range', hn]
  simp only [List.mem_map, List.mem_filter, List.mem_range, decide_eq_true_eq]
  exact exists_congr fun i => and_congr_right' eq_comm

/-- The blocks do not overlap. -/
theorem loadBlocks_apart (hs : Segments m fb size) {n : Nat} (hn : n = (readEhdr m fb).ePhnum) :
    (loadBlocks m fb 0 n).Pairwise fun b c => ∀ x, b.Covers x → ¬ c.Covers x := by
  unfold loadBlocks
  rw [List.pairwise_map]
  have horder : (List.range' 0 n).Pairwise (· < ·) := List.pairwise_lt_range'
  refine (horder.filter _).imp_of_mem fun {i k} hi hk hlt x hx => ?_
  have hload : ∀ {j}, j ∈ (List.range' 0 n).filter
      (fun k => (phdrOf m fb k).pType = ptLoad) → IsLoad m fb j := by
    intro j hj
    obtain ⟨hmem, htype⟩ := List.mem_filter.mp hj
    have hlt := (List.mem_range'_1.mp hmem).2
    exact ⟨by omega, by simpa using htype⟩
  rw [covers_segmentBlock (hs.loadable i (hload hi)).filesz] at hx
  rw [covers_segmentBlock (hs.loadable k (hload hk)).filesz]
  exact hs.apart i k (Nat.ne_of_lt hlt) (hload hi) (hload hk) x hx

/-- The loader writes the blocks of the file, and returns the entry address. -/
theorem reloadElfFile_blocks (hw : WellFormed m fb size) (hs : Segments m fb size) :
    reloadElfFile m fb = some ((readEhdr m fb).eEntry,
      writeBlocks m (loadBlocks m fb 0 (readEhdr m fb).ePhnum)) := by
  have hphnum := ePhnum_lt m fb
  have hloop : loadSegments fb m (0 : Nat) loopSteps
      = some (writeBlocks m (loadBlocks m fb 0 (readEhdr m fb).ePhnum)) :=
    loadSegments_spec hw hs (fun _ _ _ => rfl) (Nat.zero_add _) (by unfold loopSteps; omega)
  -- The entry address is read behind the loop, from the file as it was.
  have hfile : SameFile fb size m (writeBlocks m (loadBlocks m fb 0 (readEhdr m fb).ePhnum)) := by
    intro x h₁ h₂
    refine writeBlocks_outside fun b hb hx => ?_
    obtain ⟨i, hi, rfl⟩ := (mem_loadBlocks rfl).mp hb
    have hl := hs.loadable i hi
    exact hl.apart x ((covers_segmentBlock hl.filesz x).mp hx) ⟨h₁, h₂⟩
  unfold reloadElfFile
  rw [if_neg (fun hno => hno hw.magic)]
  rw [Nat.cast_zero] at hloop
  rw [hloop, Option.map_some, readEhdr_congr hw.header hfile]

/-- The memory image of a kernel file. For every file with a header and segments that can be loaded,
the loader returns the entry address; afterwards each segment has its data from the file and zeros
behind it, and no other byte has changed. For a buffer without the magic it returns 0 and changes
nothing. -/
theorem reloadElfFile_image (m : Mem) (fb size : Nat) :
    (WellFormed m fb size → Segments m fb size →
      ∃ m', reloadElfFile m fb = some ((readEhdr m fb).eEntry, m') ∧
        (∀ i, IsLoad m fb i →
          (∀ k < (phdrOf m fb i).pFilesz,
            m' ((phdrOf m fb i).pPaddr + k) = m (fb + (phdrOf m fb i).pOffset + k)) ∧
          ∀ k, (phdrOf m fb i).pFilesz ≤ k → k < (phdrOf m fb i).pMemsz →
            m' ((phdrOf m fb i).pPaddr + k) = 0#8) ∧
        ∀ x, (∀ i, IsLoad m fb i → ¬ (phdrOf m fb i).Covers x) → m' x = m x) ∧
      (¬ HasMagic m fb → reloadElfFile m fb = some (0, m)) := by
  refine ⟨fun hw hs => ⟨_, reloadElfFile_blocks hw hs, fun i hi => ?_, fun x hx => ?_⟩,
    fun hno => if_pos hno⟩
  · have hl := hs.loadable i hi
    have hlen := length_segmentBlock m fb hl.filesz
    -- A byte of the block.
    have hbyte : ∀ k < (phdrOf m fb i).pMemsz,
        (segmentBlock m fb (phdrOf m fb i)).bytes[k]?
          = some (writeBlocks m (loadBlocks m fb 0 (readEhdr m fb).ePhnum)
            ((phdrOf m fb i).pPaddr + k)) := fun k hk =>
      writeBlocks_inside (loadBlocks_apart hs rfl) ((mem_loadBlocks rfl).mpr ⟨i, hi, rfl⟩)
        (by rw [hlen]; exact hk)
    have hfilesz := hl.filesz
    refine ⟨fun k hk => ?_, fun k h₁ h₂ => ?_⟩
    · -- The data comes first in the block.
      have hdata := hbyte k (by omega)
      unfold segmentBlock at hdata
      rw [List.getElem?_append_left (by rw [length_bytesAt]; exact hk), getElem?_bytesAt m _ hk]
        at hdata
      exact (Option.some.inj hdata).symm
    · -- The rest of the block are zeros.
      have hzero := hbyte k h₂
      unfold segmentBlock at hzero
      rw [List.getElem?_append_right (by rw [length_bytesAt]; exact h₁), length_bytesAt,
        List.getElem?_replicate, if_pos (by omega)] at hzero
      exact (Option.some.inj hzero).symm
  · refine writeBlocks_outside fun b hb hc => ?_
    obtain ⟨i, hi, rfl⟩ := (mem_loadBlocks rfl).mp hb
    exact hx i hi ((covers_segmentBlock (hs.loadable i hi).filesz x).mp hc)

/-- A kernel file of 154 bytes: the header, three program headers and six bytes of data. Four bytes
are to be loaded at `0x10000`, with four zeros behind them, and two bytes at `0x20000`. The header
between them is a note. -/
def smallElf : List Nat :=
  [0x7F, 0x45, 0x4C, 0x46, 1, 1, 1, 0, 0, 0, 0, 0, 0, 0, 0, 0, 2, 0, 3, 0, 1, 0, 0, 0,
    0, 0, 1, 0, 52, 0, 0, 0, 0, 0, 0, 0, 0, 0, 0, 0, 52, 0, 32, 0, 3, 0, 0, 0, 0, 0, 0, 0,
    1, 0, 0, 0, 148, 0, 0, 0, 0, 0, 1, 0, 0, 0, 1, 0,
    4, 0, 0, 0, 8, 0, 0, 0, 5, 0, 0, 0, 0, 0, 0, 0,
    4, 0, 0, 0, 148, 0, 0, 0, 0, 0, 3, 0, 0, 0, 3, 0,
    4, 0, 0, 0, 4, 0, 0, 0, 4, 0, 0, 0, 0, 0, 0, 0,
    1, 0, 0, 0, 152, 0, 0, 0, 0, 0, 2, 0, 0, 0, 2, 0,
    2, 0, 0, 0, 2, 0, 0, 0, 6, 0, 0, 0, 0, 0, 0, 0,
    0xFA, 0xF4, 0xEB, 0xFE, 0x12, 0x34]

/-- The program headers of the file. -/
structure SmallHeaders (m : Mem) (fb : Nat) : Prop where
  phnum : (readEhdr m fb).ePhnum = 3
  first : phdrOf m fb 0 = ⟨ptLoad, 148, 0x10000, 4, 8⟩
  note : (phdrOf m fb 1).pType = 4
  third : phdrOf m fb 2 = ⟨ptLoad, 152, 0x20000, 2, 2⟩

theorem SmallHeaders.isLoad (h : SmallHeaders m fb) : IsLoad m fb i ↔ i = 0 ∨ i = 2 := by
  unfold IsLoad
  rw [h.phnum]
  constructor
  · rintro ⟨hi, htype⟩
    have hone : i ≠ 1 := by
      rintro rfl
      rw [h.note] at htype
      exact absurd htype (by decide)
    omega
  · rintro (rfl | rfl)
    · exact ⟨by decide, by rw [h.first]⟩
    · exact ⟨by decide, by rw [h.third]⟩

/-- The segments can be loaded from a buffer that they do not meet. -/
theorem SmallHeaders.segments (h : SmallHeaders m fb) (hsize : 154 ≤ size)
    (hfb : fb + size ≤ 0x10000 ∨ 0x20002 ≤ fb) : Segments m fb size where
  loadable i hi := by
    rcases h.isLoad.mp hi with rfl | rfl
    · rw [h.first]
      have hdata : 148 + 4 ≤ size := by omega
      refine ⟨hdata, by decide, by decide, by decide, fun x hx => ?_⟩
      have hx₁ : 0x10000 ≤ x := hx.1
      have hx₂ : x < 0x10000 + 8 := hx.2
      omega
    · rw [h.third]
      have hdata : 152 + 2 ≤ size := by omega
      refine ⟨hdata, by decide, by decide, by decide, fun x hx => ?_⟩
      have hx₁ : 0x20000 ≤ x := hx.1
      have hx₂ : x < 0x20000 + 2 := hx.2
      omega
  apart i k hne hi hk := by
    have hapart : ∀ x, ¬ ((⟨ptLoad, 148, 0x10000, 4, 8⟩ : Phdr).Covers x ∧
        (⟨ptLoad, 152, 0x20000, 2, 2⟩ : Phdr).Covers x) := by
      rintro x ⟨hx, hx'⟩
      have hhigh : x < 0x10000 + 8 := hx.2
      have hlow : 0x20000 ≤ x := hx'.1
      omega
    rcases h.isLoad.mp hi with rfl | rfl <;> rcases h.isLoad.mp hk with rfl | rfl
    · exact absurd rfl hne
    · rw [h.first, h.third]
      exact fun x hx hx' => hapart x ⟨hx, hx'⟩
    · rw [h.first, h.third]
      exact fun x hx hx' => hapart x ⟨hx', hx⟩
    · exact absurd rfl hne

/-- The file at `0x1000`, in a memory that is `0xAA` everywhere else. -/
def smallMem : Mem := storeBytes (fun _ => 0xAA#8) 0x1000 (smallElf.map (BitVec.ofNat 8))

theorem smallHeaders_smallMem : SmallHeaders smallMem 0x1000 := ⟨rfl, rfl, rfl, rfl⟩

theorem wellFormed_smallMem : WellFormed smallMem 0x1000 154 :=
  ⟨by decide, by decide, by decide, by decide⟩

/-- The two segments of the file are loaded and the note is not, and a buffer of zeros is not
loaded. -/
theorem reloadElfFile_image_small :
    (∃ m', reloadElfFile smallMem 0x1000 = some (0x10000, m') ∧ m' 0x10000 = 0xFA#8 ∧
      m' 0x10007 = 0#8 ∧ m' 0x10008 = 0xAA#8 ∧ m' 0x20000 = 0x12#8 ∧ m' 0x20001 = 0x34#8 ∧
      m' 0x20002 = 0xAA#8 ∧ m' 0x30000 = 0xAA#8) ∧
      reloadElfFile (fun _ => 0#8) 0x1000 = some (0, fun _ => 0#8) := by
  obtain ⟨m', he, himage, hkeep⟩ :=
    (reloadElfFile_image smallMem 0x1000 154).1 wellFormed_smallMem
      (smallHeaders_smallMem.segments (by decide) (.inl (by decide)))
  have hheaders := smallHeaders_smallMem
  obtain ⟨hdata, hzero⟩ := himage 0 (hheaders.isLoad.mpr (.inl rfl))
  obtain ⟨hdata₂, -⟩ := himage 2 (hheaders.isLoad.mpr (.inr rfl))
  rw [hheaders.first] at hdata hzero
  rw [hheaders.third] at hdata₂
  have hother : ∀ x, 0x10008 ≤ x → x < 0x20000 ∨ 0x20002 ≤ x → m' x = smallMem x := by
    intro x hlow hx
    refine hkeep x fun i hi hc => ?_
    rcases hheaders.isLoad.mp hi with rfl | rfl
    · rw [hheaders.first] at hc
      have hhigh : x < 0x10000 + 8 := hc.2
      omega
    · rw [hheaders.third] at hc
      have hlow' : 0x20000 ≤ x := hc.1
      have hhigh : x < 0x20000 + 2 := hc.2
      omega
  exact ⟨⟨m', he, hdata 0 (by decide), hzero 7 (by decide) (by decide),
    hother 0x10008 (by decide) (by decide), hdata₂ 0 (by decide), hdata₂ 1 (by decide),
    hother 0x20002 (by decide) (by decide), hother 0x30000 (by decide) (by decide)⟩,
    (reloadElfFile_image _ 0x1000 154).2 (by decide)⟩

end StartKernel
